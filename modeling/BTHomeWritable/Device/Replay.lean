import BTHomeWritable.Device.Effects

/-!
# The write counter and its mark

A write that was accepted lies, on the unwrapped line, at or behind the
last-accepted counter while the device has power, and strictly behind the mark
on flash always.  Coming back to it therefore costs nearly a whole turn of the
circle, of which one step makes at most half: that is the replay bound of S5.3.

* `WriteInv` is the write side of the flash and of the RAM, `WriteLive` its part
  in the RAM;
* `ReplayInv` adds what the history of accepted frames satisfies, the bound
  among them;
* `BehindMark` is the one thing the code does not check for itself: it compares
  the counter with the mark as plain numbers, so a counter that wraps past the
  mark moves on without a save;
* `MarkSaved` is what a failing flash can break: that the mark compared with is
  the one on flash.

Sealing leaves this side alone (`writeInv_stable`).  An accepted write goes one of
two ways, counted or saved, and `ReplayInv.accept_counted` and
`ReplayInv.accept_saved` take one each; both come down to `counted_lt_mark`, by
which a counter short of the mark on the circle is short of it on the line.
`ReplayInv.step` and `ReplayInv.run` carry the invariant along.

While no save fails, `MarkSaved` holds of itself (`along_markSaved`), and what is
left is `accepted_again_only_after_half_turn`.  `accepted_again_after_wrap` is a
run in which a counter wraps past its mark.
-/

namespace BTHomeWritable.Device

open Statements

variable {A : Fate Fault → Prop} {ccm : Aead} {accepted : List Acceptance} {w w' : World}
  {st : St} {counter : ℕ}

/-- The write side of the RAM. -/
structure WriteLive (w : World) (st : St) : Prop where
  counter : st.writeCounter = w.trail.write % 4294967296
  mark : st.writeMark = w.trail.writeMark % 4294967296
  le_mark : w.trail.write ≤ w.trail.writeMark
  near : w.trail.writeMark ≤ w.trail.write + CTR_STRIDE
  file_le : w.trail.writeFile ≤ w.trail.writeMark
  anchored : st.writeMark = (loadMarks w.file).w → w.trail.writeMark = w.trail.writeFile

/-- The write side of a world, against the frames accepted so far. -/
structure WriteInv (accepted : List Acceptance) (w : World) : Prop where
  file : (loadMarks w.file).w = w.trail.writeFile % 4294967296
  behind : ∀ a ∈ accepted, a.position < w.trail.writeFile
  live : ∀ st ∈ w.st, WriteLive w st
  reached : ∀ st ∈ w.st, ∀ a ∈ accepted, a.position ≤ w.trail.write

/-! ## What the statements preserve -/

theorem WriteInv.powerOff (h : WriteInv accepted w) : WriteInv accepted w.powerOff where
  file := h.file
  behind := h.behind
  live := by simp [World.powerOff]
  reached := by simp [World.powerOff]

/-- Losing the power in the middle of `openWrite` forgets the counter it had moved. -/
theorem WriteInv.powerOff_counted (h : WriteInv accepted w) :
    WriteInv accepted (counted w counter).powerOff :=
  { h.powerOff with live := by simp [World.powerOff], reached := by simp [World.powerOff] }

/-- `w'` differs from `w` in nothing the write side is made of. -/
structure SameWriteSide (w w' : World) : Prop where
  file : w'.file = w.file
  write : w'.trail.write = w.trail.write
  mark : w'.trail.writeMark = w.trail.writeMark
  saved : w'.trail.writeFile = w.trail.writeFile
  st : ∀ st' ∈ w'.st, ∃ st ∈ w.st,
    st'.writeCounter = st.writeCounter ∧ st'.writeMark = st.writeMark

theorem Untouched.sameWriteSide (h : Untouched w w') : SameWriteSide w w' where
  file := h.file
  write := by rw [h.trail]
  mark := by rw [h.trail]
  saved := by rw [h.trail]
  st := by
    intro st' hst'
    obtain ⟨rejects, hst⟩ := h.st
    rw [hst] at hst'
    obtain ⟨st, hmem, rfl⟩ := Option.map_eq_some_iff.mp hst'
    exact ⟨st, hmem, rfl, rfl⟩

theorem sameWriteSide_bump (w : World) : SameWriteSide w w.bumpAdvCounter :=
  ⟨rfl, rfl, rfl, rfl, by
    intro st' hst'
    obtain ⟨st, hmem, rfl⟩ := Option.map_eq_some_iff.mp hst'
    exact ⟨st, hmem, rfl, rfl⟩⟩

theorem sameWriteSide_setAdvMark (counter : ℕ) (w : World) :
    SameWriteSide w (w.setAdvMark counter) :=
  ⟨rfl, rfl, rfl, rfl, by
    intro st' hst'
    obtain ⟨st, hmem, rfl⟩ := Option.map_eq_some_iff.mp hst'
    exact ⟨st, hmem, rfl, rfl⟩⟩

theorem sameWriteSide_noteSealed (info : UInt8) (counter : ℕ) (w : World) :
    SameWriteSide w (w.noteSealed info counter) :=
  ⟨rfl, rfl, rfl, rfl, fun st hst => ⟨st, hst, rfl, rfl⟩⟩

theorem WriteInv.congr (h : WriteInv accepted w) (hw : SameWriteSide w w') :
    WriteInv accepted w' := by
  refine
    { file := by rw [hw.file, hw.saved]; exact h.file
      behind := by rw [hw.saved]; exact h.behind
      live := ?_
      reached := ?_ }
  · intro st' hst'
    obtain ⟨st, hmem, hcounter, hmark⟩ := hw.st st' hst'
    have hlive := h.live st hmem
    exact
      { counter := by rw [hcounter, hw.write]; exact hlive.counter
        mark := by rw [hmark, hw.mark]; exact hlive.mark
        le_mark := by rw [hw.write, hw.mark]; exact hlive.le_mark
        near := by rw [hw.write, hw.mark]; exact hlive.near
        file_le := by rw [hw.saved, hw.mark]; exact hlive.file_le
        anchored := by rw [hmark, hw.file, hw.saved, hw.mark]; exact hlive.anchored }
  · intro st' hst'
    obtain ⟨st, hmem, -⟩ := hw.st st' hst'
    rw [hw.write]
    exact h.reached st hmem

theorem WriteInv.writeJSON (h : WriteInv accepted w) : WriteInv accepted w.writeJSON := by
  unfold World.writeJSON
  cases hst : w.st with
  | none => exact h
  | some st =>
      have hlive := h.live st hst
      have hmark := hlive.mark
      have hfile := hlive.file_le
      have hsaved : (loadMarks (some (.object (some st.writeMark) (some st.advMark)))).w =
          w.trail.writeMark % 4294967296 := by
        rw [loadMarks_object, hmark, Nat.mod_mod]
      refine
        { file := hsaved
          behind := fun a ha => (h.behind a ha).trans_le hfile
          live := ?_
          reached := fun _ _ => h.reached st hst }
      intro st' hst'
      obtain rfl : st = st' := by simpa using hst'
      exact
        { counter := hlive.counter
          mark := hmark
          le_mark := hlive.le_mark
          near := hlive.near
          file_le := le_rfl
          anchored := fun _ => rfl }

theorem writeInv_stable : SealStable (WriteInv accepted) where
  bump w h := h.congr (sameWriteSide_bump w)
  mark counter w h := h.congr (sameWriteSide_setAdvMark counter w)
  save _ h := h.writeJSON
  note info counter w h := h.congr (sameWriteSide_noteSealed info counter w)

theorem WriteInv.swap (opts : SetupOpts) (h : WriteInv accepted w) :
    WriteInv accepted (w.swap opts (loadMarks w.file)) where
  file := h.file
  behind := h.behind
  live := by
    intro st hst
    obtain rfl : _ = st := by simpa [World.swap] using hst
    exact
      { counter := h.file
        mark := h.file
        le_mark := le_rfl
        near := by simp [World.swap]
        file_le := le_rfl
        anchored := fun _ => rfl }
  reached := fun _ _ a ha => (h.behind a ha).le

theorem counted_write (counter : ℕ) (hst : w.st = some st) :
    (counted w counter).trail.write =
      w.trail.write + Circular.forward 4294967296 st.writeCounter counter := by
  simp [counted, World.setWriteCounter, hst]

/-- Where the last-accepted counter goes when `counter` is accepted. -/
theorem WriteLive.arrive (h : WriteLive w st) (hst : w.st = some st)
    (hcounter : counter < 4294967296) :
    (counted w counter).trail.write % 4294967296 = counter := by
  rw [counted_write counter hst]
  exact Circular.add_forward_mod (by norm_num) h.counter hcounter

theorem write_le_counted (w : World) (counter : ℕ) :
    w.trail.write ≤ (counted w counter).trail.write := by
  simp [counted, World.setWriteCounter]

/-- Moving the counter alone is safe as long as it stays behind the mark. -/
theorem WriteInv.counted (h : WriteInv accepted w) (hst : w.st = some st)
    (hcounter : counter < 4294967296)
    (hmark : (counted w counter).trail.write ≤ w.trail.writeMark) :
    WriteInv accepted (counted w counter) := by
  have hlive := h.live st hst
  have hnear := hlive.near
  have harrive := hlive.arrive hst hcounter
  have hle := write_le_counted w counter
  refine
    { file := h.file
      behind := h.behind
      live := ?_
      reached := fun _ _ a ha => (h.reached st hst a ha).trans hle }
  intro st' hst'
  obtain rfl : { st with writeCounter := counter } = st' := by
    simpa [Device.counted, World.setWriteCounter, hst] using hst'
  exact
    { counter := harrive.symm
      mark := hlive.mark
      le_mark := hmark
      near := hnear.trans (Nat.add_le_add_right hle _)
      file_le := hlive.file_le
      anchored := hlive.anchored }

theorem WriteInv.marked (h : WriteInv accepted w) (hst : w.st = some st)
    (hcounter : counter < 4294967296) : WriteInv accepted (marked w counter) := by
  have hlive := h.live st hst
  have harrive := hlive.arrive hst hcounter
  have hle := write_le_counted w counter
  have hfileLe : w.trail.writeFile ≤ (Device.counted w counter).trail.write + CTR_STRIDE := by
    calc w.trail.writeFile
        ≤ w.trail.writeMark := hlive.file_le
      _ ≤ w.trail.write + CTR_STRIDE := hlive.near
      _ ≤ (Device.counted w counter).trail.write + CTR_STRIDE := Nat.add_le_add_right hle _
  have hmark : toUint32 ((counter : ℤ) + CTR_STRIDE) =
      ((Device.counted w counter).trail.write + CTR_STRIDE) % 4294967296 := by
    have hadd := toUint32_mod_add (Device.counted w counter).trail.write CTR_STRIDE
    rwa [harrive] at hadd
  -- the flash has the new mark only where it had the same number before, and then what it
  -- stands for has moved up
  have hgrow : w.trail.writeFile ≤ (Device.marked w counter).trail.writeFile := by
    simp only [Device.marked, World.setWriteMark]
    split
    · exact hfileLe
    · exact le_rfl
  have hfile : (loadMarks w.file).w =
      (Device.marked w counter).trail.writeFile % 4294967296 := by
    simp only [Device.marked, World.setWriteMark]
    split
    case isTrue hround => exact hround.symm.trans hmark
    case isFalse => exact h.file
  refine
    { file := hfile
      behind := fun a ha => (h.behind a ha).trans_le hgrow
      live := ?_
      reached := fun _ _ a ha => (h.reached st hst a ha).trans hle }
  intro st' hst'
  obtain rfl : { st with
      writeCounter := counter, writeMark := toUint32 ((counter : ℤ) + CTR_STRIDE) } = st' := by
    simpa [Device.marked, World.setWriteMark, World.setWriteCounter, hst] using hst'
  refine
    { counter := harrive.symm
      mark := hmark
      le_mark := Nat.le_add_right _ _
      near := le_rfl
      file_le := ?_
      anchored := ?_ }
  · simp only [Device.marked, World.setWriteMark]
    split
    · exact le_rfl
    · exact hfileLe
  · intro hround
    have hround' : toUint32 ((counter : ℤ) + CTR_STRIDE) =
        (loadMarks (w.setWriteCounter counter).file).w := hround
    simp only [Device.marked, World.setWriteMark, if_pos hround']

/-! ## The history of a life -/

structure ReplayInv (l : Life) : Prop where
  world : WriteInv l.accepted l.world
  last : l.world.st.isSome → l.last = l.world.trail.write
  frame : ∀ a ∈ l.accepted, (splitWrite a.frame).counter = a.position % 4294967296
  moved : ∀ a ∈ l.accepted, a.after + (l.last - a.position) ≤ l.moved
  covered : ∀ a ∈ l.accepted, counterIsAhead a.onFlash (splitWrite a.frame).counter
  replay : l.accepted.Pairwise fun a b => a.frame = b.frame → a.after + CTR_WINDOW ≤ b.before

variable {l : Life} {pl : Bytes}

theorem ReplayInv.powerOn (file : Option MarksFile) : ReplayInv (Life.powerOn file) where
  world :=
    { file := (Nat.mod_eq_of_lt (loadMarks_lt file).1).symm
      behind := by simp [Life.powerOn]
      live := by simp [Life.powerOn, World.powerOn]
      reached := by simp [Life.powerOn] }
  last := by simp [Life.powerOn, World.powerOn]
  frame := by simp [Life.powerOn]
  moved := by simp [Life.powerOn]
  covered := by simp [Life.powerOn]
  replay := by simp [Life.powerOn]

/-- Resting again adds to `moved` at least what it adds to the way back to any frame. -/
theorem ReplayInv.rest (h : ReplayInv l) (hw : WriteInv l.accepted w) : ReplayInv (l.rest w) := by
  refine
    { world := by rw [rest_accepted, rest_world]; exact hw
      last := ?_
      frame := by rw [rest_accepted]; exact h.frame
      moved := ?_
      covered := by rw [rest_accepted]; exact h.covered
      replay := by rw [rest_accepted]; exact h.replay }
  · intro hsome
    rw [rest_world] at hsome ⊢
    obtain ⟨st, hst⟩ := Option.isSome_iff_exists.mp hsome
    simp only [Life.rest, hst]
  · rw [rest_accepted]
    intro a ha
    have hmoved := h.moved a ha
    unfold Life.rest
    cases w.st with
    | none => exact hmoved
    | some st =>
        calc a.after + (w.trail.write - a.position)
            ≤ a.after + (l.last - a.position) + (w.trail.write - l.last) := by omega
          _ ≤ l.moved + (w.trail.write - l.last) := Nat.add_le_add_right hmoved _

/-- A frame that passes the checks: if it was accepted before, the counter has come nearly all
the way round, and the step it takes now is at most half of that. -/
theorem ReplayInv.accept (h : ReplayInv l) (hst : l.world.st = some st)
    (hpass : passes ccm st pl) (hw : WriteInv l.accepted w) (hsome : w.st.isSome)
    (hwrite : w.trail.write = (counted l.world (splitWrite pl).counter).trail.write)
    (hbehind : w.trail.write < w.trail.writeFile)
    (hnear : w.trail.writeFile ≤ w.trail.write + CTR_STRIDE) :
    ReplayInv (l.accept (l.rest w) pl) := by
  have hlive := h.world.live st hst
  have hlt := splitWrite_counter_lt pl
  have hlast : l.last = l.world.trail.write := h.last (by simp [hst])
  have hcounter : (splitWrite pl).counter = w.trail.write % 4294967296 := by
    rw [hwrite]
    exact (hlive.arrive hst hlt).symm
  have hrest : l.rest w = ⟨w, w.trail.write, l.moved + (w.trail.write - l.last), l.accepted⟩ := by
    obtain ⟨st', hst'⟩ := Option.isSome_iff_exists.mp hsome
    simp only [Life.rest, hst']
  have hforward : w.trail.write = l.world.trail.write +
      Circular.forward 4294967296 st.writeCounter (splitWrite pl).counter := by
    rw [hwrite, counted_write _ hst]
  have hahead : 0 < Circular.forward 4294967296 st.writeCounter (splitWrite pl).counter ∧
      Circular.forward 4294967296 st.writeCounter (splitWrite pl).counter ≤ 2147483648 := by
    rw [← counterIsAhead_iff]
    exact ahead_of_passes hpass
  have hcovered : counterIsAhead (loadMarks w.file).w (splitWrite pl).counter := by
    rw [hw.file, hcounter]
    refine ahead_of_behind hbehind ?_
    unfold CTR_STRIDE at hnear
    omega
  have hback : ∀ a ∈ l.accepted, a.frame = pl → a.after + CTR_WINDOW ≤ l.moved := by
    intro a ha hframe
    have hmoved := h.moved a ha
    have hreached := h.world.reached st hst a ha
    have hagain : (splitWrite pl).counter = a.position % 4294967296 := hframe ▸ h.frame a ha
    -- coming back to a frame is a whole turn, and this step makes half of it at most
    have hturn := Circular.le_of_return (m := 4294967296) (by norm_num) hreached hlive.counter
      hagain hahead.1
    have hway : CTR_WINDOW ≤ l.last - a.position := by
      unfold CTR_WINDOW
      omega
    calc a.after + CTR_WINDOW
        ≤ a.after + (l.last - a.position) := Nat.add_le_add_left hway _
      _ ≤ l.moved := hmoved
  rw [hrest]
  exact
    { world :=
        { file := hw.file
          behind := Runs.forall_mem_concat.mpr ⟨hw.behind, hbehind⟩
          live := hw.live
          reached := fun st' hst' =>
            Runs.forall_mem_concat.mpr ⟨hw.reached st' hst', le_rfl⟩ }
      last := fun _ => rfl
      frame := Runs.forall_mem_concat.mpr ⟨h.frame, hcounter⟩
      moved := by
        refine Runs.forall_mem_concat.mpr ⟨fun a ha => ?_, by simp [Life.accept]⟩
        have hmoved := h.moved a ha
        simp only [Life.accept]
        omega
      covered := Runs.forall_mem_concat.mpr ⟨h.covered, hcovered⟩
      replay := Runs.pairwise_concat.mpr ⟨h.replay, hback⟩ }

/-! ## What may happen to a device -/

/-- A write that the device will accept without a save is circularly behind the write mark. -/
def BehindMark (ccm : Aead) (l : Life) : Event → Prop
  | .write pl _ => ∀ st ∈ l.world.st, passes ccm st pl → (splitWrite pl).counter < st.writeMark →
      ¬ reachedMark (splitWrite pl).counter st.writeMark (CTR_WINDOW + 1)
  | _ => True

/-- The mark it is compared with is the one on flash. -/
def MarkSaved (ccm : Aead) (l : Life) : Event → Prop
  | .write pl _ => ∀ st ∈ l.world.st, passes ccm st pl → (splitWrite pl).counter < st.writeMark →
      st.writeMark = (loadMarks l.world.file).w
  | _ => True

instance (l : Life) : DecidablePred (BehindMark ccm l)
  | .write _ _ => inferInstanceAs (Decidable (∀ st ∈ l.world.st, _))
  | .setup _ _ | .seal _ _ _ | .powerCut => inferInstanceAs (Decidable True)

instance (l : Life) : DecidablePred (MarkSaved ccm l)
  | .write _ _ => inferInstanceAs (Decidable (∀ st ∈ l.world.st, _))
  | .setup _ _ | .seal _ _ _ | .powerCut => inferInstanceAs (Decidable True)

/-- Short of the mark on the circle is short of it on the line. -/
theorem counted_lt_mark (h : WriteLive w st) (hst : w.st = some st)
    (hcounter : counter < 4294967296) (hahead : counterIsAhead counter st.writeCounter)
    (hmark : ¬ reachedMark counter st.writeMark (CTR_WINDOW + 1)) :
    (counted w counter).trail.write < w.trail.writeMark := by
  have hle := h.le_mark
  have harrive := h.arrive hst hcounter
  have hstep := counted_write counter hst
  rw [counterIsAhead_iff] at hahead
  by_contra hreached
  have hforward : Circular.forward 4294967296 st.writeMark counter =
      (counted w counter).trail.write - w.trail.writeMark := by
    have hpositions := Circular.forward_positions (m := 4294967296) (p := w.trail.writeMark)
      (q := (counted w counter).trail.write) (by omega) (by omega)
    rwa [harrive, ← h.mark] at hpositions
  have hwindow : reachedMark counter st.writeMark (CTR_WINDOW + 1) := by
    simp only [reachedMark, decide_eq_true_eq]
    rw [toUint32_sub_eq_forward, hforward]
    unfold CTR_WINDOW
    omega
  exact hmark hwindow

/-- A frame accepted below the mark, which is the one on flash. -/
theorem ReplayInv.accept_counted (h : ReplayInv l) (hst : l.world.st = some st)
    (hpass : passes ccm st pl)
    (hmark : ¬ reachedMark (splitWrite pl).counter st.writeMark (CTR_WINDOW + 1))
    (hsaved : st.writeMark = (loadMarks l.world.file).w) :
    ReplayInv (l.accept (l.rest (counted l.world (splitWrite pl).counter)) pl) := by
  have hlive := h.world.live st hst
  have hlt := splitWrite_counter_lt pl
  have hbelow := counted_lt_mark hlive hst hlt (ahead_of_passes hpass) hmark
  have hfile : l.world.trail.writeMark = l.world.trail.writeFile := hlive.anchored hsaved
  have hnear : l.world.trail.writeMark ≤
      (counted l.world (splitWrite pl).counter).trail.write + CTR_STRIDE :=
    hlive.near.trans (Nat.add_le_add_right (write_le_counted l.world _) _)
  refine h.accept hst hpass (h.world.counted hst hlt hbelow.le)
    (by simp [counted, World.setWriteCounter, hst]) rfl ?_ ?_
  · exact hbelow.trans_eq hfile
  · exact hfile ▸ hnear

/-- A frame accepted at or past the mark, with the new mark saved. -/
theorem ReplayInv.accept_saved (h : ReplayInv l) (hst : l.world.st = some st)
    (hpass : passes ccm st pl) :
    ReplayInv (l.accept (l.rest (saved l.world (splitWrite pl).counter)) pl) := by
  have hsaved := (h.world.marked hst (splitWrite_counter_lt pl)).writeJSON
  refine h.accept hst hpass hsaved ?_ ?_ ?_ ?_ <;>
    simp [saved, marked, counted, World.writeJSON, World.setWriteMark, World.setWriteCounter, hst,
      CTR_STRIDE]

theorem ReplayInv.write (h : ReplayInv l) (script : List (Fate Fault))
    (hbehind : BehindMark ccm l (.write pl script)) (hsaved : MarkSaved ccm l (.write pl script)) :
    ReplayInv (l.step ccm (.write pl script)) := by
  cases hst : l.world.st with
  | none =>
      have hrun := openWrite_powerOff ccm pl script hst
      simp only [Life.step, hrun]
      exact h.rest h.world
  | some st =>
      have hp := wp_openWrite (A := fun _ => True) ccm pl hst script (by simp)
      have hlt := splitWrite_counter_lt pl
      simp only [Life.step]
      cases hrun : openWrite ccm pl l.world script with
      | done result w' rest =>
          rw [hrun] at hp
          rcases hp.1 with ⟨rfl, hrefused⟩ | ⟨hopened, hpass, hmoved⟩
          · exact h.rest (h.world.congr hrefused.sameWriteSide)
          · obtain ⟨pt, hpt⟩ := Option.isSome_iff_exists.mp (isSome_decrypt_of_passes hpass)
            obtain rfl : result = some pt := hopened.trans hpt
            rcases hmoved with ⟨hbelow, rfl⟩ | ⟨-, rfl⟩
            · exact h.accept_counted hst hpass (hbehind st hst hpass hbelow)
                (hsaved st hst hpass hbelow)
            · exact h.accept_saved hst hpass
      | threw e w' rest =>
          rw [hrun] at hp
          rcases hp with hrefused | ⟨-, -, -, rfl⟩
          · exact h.rest (h.world.congr hrefused.sameWriteSide)
          · exact h.rest (h.world.marked hst hlt)
      | cut w' =>
          rw [hrun] at hp
          -- the RAM is gone, and the flash has either mark
          have hmarked := h.world.marked hst hlt
          rcases hp with hrefused | ⟨-, rfl | ⟨-, rfl | rfl⟩⟩
          · exact h.rest (h.world.congr hrefused.sameWriteSide).powerOff
          · exact h.rest h.world.powerOff_counted
          · exact h.rest hmarked.powerOff
          · exact h.rest hmarked.writeJSON.powerOff

theorem ReplayInv.step (h : ReplayInv l) (e : Event) (hbehind : BehindMark ccm l e)
    (hsaved : MarkSaved ccm l e) : ReplayInv (l.step ccm e) := by
  match e with
  | .setup opts script =>
      have hsetup := writeInv_stable.wp_setup (A := fun _ => True) ccm opts h.world
        (h.world.swap opts)
      exact h.rest (wp_afterwards hsetup (fun w' hw => hw.powerOff) (by simp))
  | .seal pt info script =>
      have hseal := writeInv_stable.wp_sealUnder (A := fun _ => True) ccm pt info h.world
      exact h.rest (wp_afterwards hseal (fun w' hw => hw.powerOff) (by simp))
  | .write pl script => exact h.write script hbehind hsaved
  | .powerCut => exact h.rest h.world.powerOff

/-- The run lemma of the write side. -/
theorem ReplayInv.run {events : List Event} (h : ReplayInv l)
    (halong : Runs.Along (Life.step ccm)
      (fun l e => BehindMark ccm l e ∧ MarkSaved ccm l e) l events) :
    ReplayInv (Runs.run (Life.step ccm) l events) :=
  Runs.run_invariant (fun _ e hinv he => hinv.step e he.1 he.2) h halong

/-! ## Without a failing flash -/

/-- No failed save of the write mark is outstanding. -/
def WriteSynced (w : World) : Prop := ∀ st ∈ w.st, w.trail.writeMark = w.trail.writeFile

theorem WriteSynced.powerOff (w : World) : WriteSynced w.powerOff := by
  simp [WriteSynced, World.powerOff]

theorem WriteSynced.congr (h : WriteSynced w) (hw : SameWriteSide w w') : WriteSynced w' := by
  intro st' hst'
  obtain ⟨st, hst, -⟩ := hw.st st' hst'
  rw [hw.mark, hw.saved]
  exact h st hst

theorem WriteSynced.writeJSON (w : World) : WriteSynced w.writeJSON := by
  unfold World.writeJSON
  cases hst : w.st with
  | none => simp [WriteSynced, hst]
  | some st => exact fun _ _ => rfl

theorem writeSynced_stable : SealStable WriteSynced where
  bump w h := h.congr (sameWriteSide_bump w)
  mark counter w h := h.congr (sameWriteSide_setAdvMark counter w)
  save w _ := WriteSynced.writeJSON w
  note info counter w h := h.congr (sameWriteSide_noteSealed info counter w)

theorem WriteSynced.step (h : WriteSynced l.world) {e : Event} (hflash : FlashWorks e) :
    WriteSynced (l.step ccm e).world := by
  match e with
  | .setup opts script =>
      have hsetup := writeSynced_stable.wp_setup (A := fun _ => True) ccm opts h
        (fun _ _ => rfl)
      rw [Life.step, rest_world]
      exact wp_afterwards hsetup (fun w' _ => WriteSynced.powerOff w') (by simp)
  | .seal pt info script =>
      have hseal := writeSynced_stable.wp_sealUnder (A := fun _ => True) ccm pt info h
      rw [Life.step, rest_world]
      exact wp_afterwards hseal (fun w' _ => WriteSynced.powerOff w') (by simp)
  | .write pl script =>
      rw [step_write_world]
      cases hst : l.world.st with
      | none =>
          rw [openWrite_powerOff ccm pl script hst]
          exact h
      | some st =>
          have hopen := wp_openWrite (A := fun fate => fate ≠ .fault .storage) ccm pl hst
          refine wp_afterwards (C := fun _ => True) (wp_mono hopen ?_ ?_ (by simp))
            (fun w' _ => WriteSynced.powerOff w') hflash
          · rintro result w' (⟨-, hrefused⟩ | ⟨-, -, ⟨-, rfl⟩ | ⟨-, rfl⟩⟩)
            · exact h.congr hrefused.sameWriteSide
            · exact fun _ _ => h st hst
            · exact WriteSynced.writeJSON _
          · rintro error w' (hrefused | ⟨hfault, -⟩)
            · exact h.congr hrefused.sameWriteSide
            · exact absurd rfl hfault
  | .powerCut =>
      rw [Life.step, rest_world]
      exact WriteSynced.powerOff l.world

theorem WriteSynced.markSaved (h : WriteSynced l.world) (hinv : WriteInv l.accepted l.world)
    (e : Event) : MarkSaved ccm l e := by
  match e with
  | .write pl script =>
      intro st hst _ _
      rw [(hinv.live st hst).mark, hinv.file, h st hst]
  | .setup _ _ | .seal _ _ _ | .powerCut => trivial

/-- Along a run whose flash works, the mark compared with is always the one on flash. -/
theorem along_markSaved {events : List Event} (hinv : ReplayInv l) (hsync : WriteSynced l.world)
    (hflash : ∀ e ∈ events, FlashWorks e)
    (hbehind : Runs.Along (Life.step ccm) (BehindMark ccm) l events) :
    Runs.Along (Life.step ccm) (fun l e => BehindMark ccm l e ∧ MarkSaved ccm l e) l events := by
  have hsaved : ∀ (l : Life) (e : Event), ReplayInv l ∧ WriteSynced l.world →
      MarkSaved ccm l e := fun _ e hl => hl.2.markSaved hl.1.world e
  refine Runs.Along.strengthen (P := fun l e => BehindMark ccm l e ∧ FlashWorks e) ?_
    (fun l e hl he => ⟨he.1, hsaved l e hl⟩) ⟨hinv, hsync⟩
    (hbehind.and (Runs.Along.of_forall hflash))
  intro l e hl he
  exact ⟨hl.1.step e he.1 (hsaved l e hl), hl.2.step he.2⟩

theorem refused_untouched {script : List (Fate Fault)} (hflash : FlashWorks (.write pl script))
    (hrefused : w' ∈ refusedIn (openWrite ccm pl w script)) : Untouched w w' := by
  cases hst : w.st with
  | none =>
      rw [openWrite_powerOff ccm pl script hst] at hrefused
      obtain rfl : w = w' := by simpa [refusedIn] using hrefused
      exact Untouched.refl w
  | some st =>
      have hp := wp_openWrite (A := fun fate => fate ≠ .fault .storage) ccm pl hst script
        hflash
      cases hrun : openWrite ccm pl w script with
      | done result w₁ rest =>
          rw [hrun] at hp hrefused
          cases result with
          | none =>
              obtain rfl : w₁ = w' := by simpa [refusedIn] using hrefused
              rcases hp.1 with ⟨-, huntouched⟩ | ⟨hopened, hpass, -⟩
              · exact huntouched
              · have hsome := isSome_decrypt_of_passes hpass
                rw [← hopened] at hsome
                exact absurd hsome (by simp)
          | some pt => simp [refusedIn] at hrefused
      | threw e w₁ rest =>
          rw [hrun] at hp hrefused
          obtain rfl : w₁ = w' := by simpa [refusedIn] using hrefused
          rcases hp with huntouched | ⟨hfault, -⟩
          · exact huntouched
          · exact absurd rfl hfault
      | cut w₁ =>
          rw [hrun] at hrefused
          simp [refusedIn] at hrefused

/-- S5.3 against replay, over every life of a device whose flash works: a frame is accepted a
second time only after half a turn, and a refusal leaves the counters alone. -/
theorem accepted_again_only_after_half_turn (ccm : Aead) (file : Option MarksFile)
    (events : List Event) (hflash : ∀ e ∈ events, FlashWorks e)
    (hbehind : Runs.Along (Life.step ccm) (BehindMark ccm) (Life.powerOn file) events) :
    let l := Runs.run (Life.step ccm) (Life.powerOn file) events
    (l.accepted.Pairwise fun a b => a.frame = b.frame → a.after + 0x80000000 ≤ b.before) ∧
      ∀ pl script, FlashWorks (.write pl script) →
        ∀ w' ∈ refusedIn (openWrite ccm pl l.world script),
          w'.st.map (fun st => (st.writeCounter, st.writeMark)) =
              l.world.st.map (fun st => (st.writeCounter, st.writeMark)) ∧
            w'.file = l.world.file := by
  intro l
  have hsync : WriteSynced (Life.powerOn file).world := by
    simp [WriteSynced, Life.powerOn, World.powerOn]
  have halong := along_markSaved (ReplayInv.powerOn file) hsync hflash hbehind
  have hinv : ReplayInv l := (ReplayInv.powerOn file).run halong
  refine ⟨hinv.replay, ?_⟩
  intro pl script hscript w' hrefused
  have huntouched := refused_untouched hscript hrefused
  obtain ⟨rejects, hst⟩ := huntouched.st
  refine ⟨?_, huntouched.file⟩
  rw [hst, Option.map_map]
  rfl

/-- A life with a frame, its replay, a frame past the mark and a loss of power. -/
theorem accepted_again_only_after_half_turn_sample :
    let events := [.setup sampleOpts [], .write (sampleFrame 3) [], .write (sampleFrame 3) [],
      .write (sampleFrame 70) [], .powerCut, .setup sampleOpts []]
    let l := Runs.run (Life.step sampleCcm) (Life.powerOn none) events
    (l.accepted.Pairwise fun a b => a.frame = b.frame → a.after + 0x80000000 ≤ b.before) ∧
      ∀ pl script, FlashWorks (.write pl script) →
        ∀ w' ∈ refusedIn (openWrite sampleCcm pl l.world script),
          w'.st.map (fun st => (st.writeCounter, st.writeMark)) =
              l.world.st.map (fun st => (st.writeCounter, st.writeMark)) ∧
            w'.file = l.world.file :=
  accepted_again_only_after_half_turn sampleCcm none _ (by decide) (by decide +kernel)

/-- The last two frames: one past the mark as a number, and one that has wrapped behind it
without a save.  Power goes, and the device resumes where the first of them left the mark. -/
theorem accepted_again_after_wrap :
    ∃ events, (∀ e ∈ events, FlashWorks e) ∧
      ¬ (Runs.run (Life.step sampleCcm) (Life.powerOn none) events).accepted.Pairwise
        fun a b => a.frame = b.frame → a.after + 0x80000000 ≤ b.before :=
  ⟨[.setup sampleOpts [], .write (sampleFrame 0x7FFFFFFF) [], .write (sampleFrame 0xFFFFFFBF) [],
    .write (sampleFrame 0x10) [], .powerCut, .setup sampleOpts [],
    .write (sampleFrame 0x10) []], by decide, by decide +kernel⟩

end BTHomeWritable.Device
