import BTHomeWritable.Device.Counters
import BTHomeWritable.Lib.Runs

/-!
# What the programs can do, said once

Every invariant of the device is derived from the lemmas of this file, not from
the programs.

* `sealUnder` and `setup` are made of four assignments and saves.  `SealStable I`
  says that each of them preserves `I`; then so do the programs, wherever they
  are cut (`SealStable.wp_sealUnder`, `SealStable.wp_publishAll`,
  `SealStable.wp_setup`).
* `openWrite` either leaves everything but the count of refusals alone
  (`Untouched`), or the frame passes its checks (`passes`) and the world it ends
  in is one of three: `counted`, where the counter is short of the mark,
  `marked`, where the mark has moved in the RAM, and `saved`.  `wp_openWrite`
  lists them for returning, for throwing and for power that goes.
* `wp_afterwards` passes from a program to the world it leaves behind, and the
  last section to events.
-/

namespace BTHomeWritable.Device

open Statements

variable {A : Fate Fault → Prop} {ccm : Aead} {w w' : World} {st : St}

theorem withSt_some {α : Type} (k : St → DeviceProg α) (script : List (Fate Fault))
    (hst : w.st = some st) : withSt k w script = k st w script := by
  unfold withSt
  show Prog.bind _ _ _ _ = _
  simp only [Prog.bind, Prog.read, hst]

/-! ## Sealing -/

/-- Preserved by everything that happens while a packet or a read is sealed. -/
structure SealStable (I : World → Prop) : Prop where
  bump : ∀ w, I w → I w.bumpAdvCounter
  mark : ∀ counter w, I w → I (w.setAdvMark counter)
  save : ∀ w, I w → I w.writeJSON
  note : ∀ info counter w, I w → I (w.noteSealed info counter)

variable (ccm) in
theorem SealStable.wp_sealUnder {I : World → Prop} (stable : SealStable I) (pt : Bytes)
    (info : UInt8) (h : I w) :
    wp A (sealUnder ccm pt info) (fun _ => I) (fun _ => I) I w := by
  unfold sealUnder withSt
  refine wp_bind (wp_read ?_)
  cases w.st with
  | none => exact wp_raise h
  | some st =>
      have hbump := stable.bump w h
      have hnote : wp A (noteAdvCounter (toUint32 ((st.advCounter : ℤ) + 1)))
          (fun _ => I) (fun _ => I) I w.bumpAdvCounter := by
        unfold noteAdvCounter withSt
        refine wp_bind (wp_read ?_)
        cases w.bumpAdvCounter.st with
        | none => exact wp_raise hbump
        | some st' =>
            by_cases hreached :
                reachedMark (toUint32 ((st.advCounter : ℤ) + 1)) st'.advMark ADV_STRIDE
            · have hmark := stable.mark (toUint32 ((st.advCounter : ℤ) + 1)) _ hbump
              simp only [hreached, if_true]
              exact wp_bind (wp_stmt (wp_call (stable.save _ hmark) (fun _ => hmark) hmark) hbump)
            · simp only [hreached]
              exact wp_pure hbump
      refine wp_bind (wp_stmt ?_ h)
      refine wp_bind (wp_mono hnote ?_ (fun _ _ hw => hw) (fun _ hw => hw))
      intro _ w' hw'
      have hsealed := stable.note info st.advCounter w' hw'
      exact wp_bind (wp_stmt (wp_bind (wp_call (wp_pure hsealed) (fun _ => hsealed) hsealed)) hw')

variable (ccm) in
theorem SealStable.wp_publishAll {I : World → Prop} (stable : SealStable I)
    (publishes : List (Bytes × UInt8)) (h : I w) :
    wp A (publishAll ccm publishes) (fun _ => I) (fun _ => I) I w := by
  induction publishes generalizing w with
  | nil => exact wp_pure h
  | cons head rest ih =>
      refine wp_bind (wp_call ?_ (fun _ => h) h)
      exact wp_bind (wp_mono (stable.wp_sealUnder ccm head.1 head.2 h) (fun _ _ hw => ih hw)
        (fun _ _ hw => hw) (fun _ hw => hw))

variable (ccm) in
theorem SealStable.wp_setup {I : World → Prop} (stable : SealStable I) (opts : SetupOpts)
    (h : I w) (hswap : I (w.swap opts (loadMarks w.file))) :
    wp A (setup ccm opts) (fun _ => I) (fun _ => I) I w := by
  unfold setup
  refine wp_bind (wp_read (wp_bind (wp_call ?_ (fun _ => h) h)))
  refine wp_bind (wp_stmt ?_ h)
  refine wp_bind (wp_call ?_ (fun _ => hswap) hswap)
  exact stable.wp_publishAll ccm opts.publishes (stable.save _ hswap)

/-- What a `wp` says of the world a program leaves behind. -/
theorem wp_afterwards {α : Type} {p : DeviceProg α} {R C : World → Prop}
    {script : List (Fate Fault)} (h : wp A p (fun _ => R) (fun _ => R) C w)
    (hcut : ∀ w', C w' → R w'.powerOff) (hscript : ∀ fate ∈ script, A fate) :
    R (afterwards (p w script)) := by
  have hp := h script hscript
  cases hrun : p w script with
  | done a w' rest =>
      rw [hrun] at hp
      exact hp.1
  | threw e w' rest =>
      rw [hrun] at hp
      exact hp
  | cut w' =>
      rw [hrun] at hp
      exact hcut w' hp

/-! ## Opening -/

/-- Only the count of refusals differs. -/
structure Untouched (w w' : World) : Prop where
  file : w'.file = w.file
  trail : w'.trail = w.trail
  sealed : w'.sealed = w.sealed
  st : ∃ rejects, w'.st = w.st.map fun st => { st with rejects := rejects }

theorem Untouched.refl (w : World) : Untouched w w :=
  ⟨rfl, rfl, rfl, by
    cases hst : w.st with
    | none => exact ⟨fun _ => 0, rfl⟩
    | some st => exact ⟨st.rejects, rfl⟩⟩

theorem Untouched.countReject (e : JsError) (w : World) : Untouched w (w.countReject e) :=
  ⟨rfl, rfl, rfl, by
    cases hst : w.st with
    | none => exact ⟨fun _ => 0, by simp [World.countReject, hst]⟩
    | some st =>
        exact ⟨Function.update st.rejects e.code (st.rejects e.code + 1),
          by simp [World.countReject, hst]⟩⟩

/-- The counter moved and the mark not reached. -/
def counted (w : World) (counter : ℕ) : World := w.setWriteCounter counter

/-- The counter and the mark moved in the RAM, and nothing saved yet. -/
def marked (w : World) (counter : ℕ) : World := (w.setWriteCounter counter).setWriteMark counter

/-- The same, saved. -/
def saved (w : World) (counter : ℕ) : World := (marked w counter).writeJSON

/-- `pl` passes the checks of `openWrite` in state `st`. -/
def passes (ccm : Aead) (st : St) (pl : Bytes) : Bool :=
  ENC_OVERHEAD < pl.length && counterIsAhead (splitWrite pl).counter st.writeCounter &&
    (ccm.decrypt st.key (nonceFor st.mac WRITE_INFO (splitWrite pl).counter)
      (splitWrite pl).ct (splitWrite pl).mic).isSome

theorem isSome_decrypt_of_passes {pl : Bytes} (h : passes ccm st pl) :
    (ccm.decrypt st.key (nonceFor st.mac WRITE_INFO (splitWrite pl).counter)
      (splitWrite pl).ct (splitWrite pl).mic).isSome := by
  simp only [passes, Bool.and_eq_true] at h
  exact h.2

theorem ahead_of_passes {pl : Bytes} (h : passes ccm st pl) :
    counterIsAhead (splitWrite pl).counter st.writeCounter := by
  simp only [passes, Bool.and_eq_true] at h
  exact h.1.2

theorem wp_reject (e : JsError) :
    wp A (reject e) (fun _ w' => Untouched w w') (fun _ w' => Untouched w w')
      (fun w' => Untouched w w') w := by
  unfold reject withSt
  refine wp_bind (wp_read ?_)
  cases w.st with
  | none => exact wp_raise (Untouched.refl w)
  | some st =>
      refine wp_bind (wp_stmt ?_ (Untouched.refl w))
      cases st.onError with
      | false => exact wp_pure (Untouched.countReject e w)
      | true =>
          exact wp_call (Untouched.countReject e w) (fun _ => Untouched.countReject e w)
            (Untouched.countReject e w)

variable (ccm) in
/-- Before `setup()` there is nothing to open a write with. -/
theorem openWrite_powerOff (pl : Bytes) (script : List (Fate Fault)) (hst : w.st = none) :
    openWrite ccm pl w script = .threw typeError w script := by
  unfold openWrite withSt
  show Prog.bind _ _ _ _ = _
  simp [Prog.bind, Prog.read, Prog.raise, hst]

variable (ccm) in
/-- What `openWrite` does, at every place it can stop. -/
theorem wp_openWrite (pl : Bytes) (hst : w.st = some st) :
    wp A (openWrite ccm pl)
      (fun result w' =>
        (result = none ∧ Untouched w w') ∨
        (result = ccm.decrypt st.key (nonceFor st.mac WRITE_INFO (splitWrite pl).counter)
            (splitWrite pl).ct (splitWrite pl).mic ∧ passes ccm st pl ∧
          (((splitWrite pl).counter < st.writeMark ∧ w' = counted w (splitWrite pl).counter) ∨
            (st.writeMark ≤ (splitWrite pl).counter ∧ w' = saved w (splitWrite pl).counter))))
      (fun _ w' => Untouched w w' ∨
        (A (.fault .storage) ∧ passes ccm st pl ∧
          st.writeMark ≤ (splitWrite pl).counter ∧ w' = marked w (splitWrite pl).counter))
      (fun w' => Untouched w w' ∨
        (passes ccm st pl ∧
          (w' = counted w (splitWrite pl).counter ∨
            st.writeMark ≤ (splitWrite pl).counter ∧
              (w' = marked w (splitWrite pl).counter ∨ w' = saved w (splitWrite pl).counter))))
      w := by
  have hrefuse : ∀ e : JsError,
      wp A (do reject e; pure none : DeviceProg (Option Bytes))
        (fun result w' => result = none ∧ Untouched w w') (fun _ w' => Untouched w w')
        (fun w' => Untouched w w') w := by
    intro e
    exact wp_bind (wp_mono (wp_reject e) (fun _ _ hw => wp_pure ⟨rfl, hw⟩)
      (fun _ _ hw => hw) (fun _ hw => hw))
  unfold openWrite withSt
  refine wp_bind (wp_read ?_)
  simp only [hst]
  by_cases hlong : pl.length ≤ ENC_OVERHEAD
  · -- shorter than its own framing
    rw [if_pos hlong]
    exact wp_mono (hrefuse _) (fun _ _ hw => Or.inl hw) (fun _ _ hw => Or.inl hw)
      (fun _ hw => Or.inl hw)
  rw [if_neg hlong]
  by_cases hahead : counterIsAhead (splitWrite pl).counter st.writeCounter
  swap
  · -- a replay, refused before the cipher is asked
    simp only [hahead, Bool.not_false, if_true]
    exact wp_mono (hrefuse _) (fun _ _ hw => Or.inl hw) (fun _ _ hw => Or.inl hw)
      (fun _ hw => Or.inl hw)
  simp only [hahead, Bool.not_true, Bool.false_eq_true, if_false]
  refine wp_bind (wp_call ?_ (fun _ => Or.inl (Untouched.refl w)) (Or.inl (Untouched.refl w)))
  simp only [id_eq]
  cases hopen : ccm.decrypt st.key (nonceFor st.mac WRITE_INFO (splitWrite pl).counter)
    (splitWrite pl).ct (splitWrite pl).mic with
  | none =>
      exact wp_mono (hrefuse _) (fun _ _ hw => Or.inl hw) (fun _ _ hw => Or.inl hw)
        (fun _ hw => Or.inl hw)
  | some pt =>
      have hpasses : passes ccm st pl := by
        simp only [passes, hahead, hopen, Option.isSome_some, Bool.and_true, decide_eq_true_eq]
        omega
      unfold noteWriteCounter withSt
      refine wp_bind (wp_bind (wp_read ?_))
      simp only [hst]
      refine wp_bind (wp_stmt ?_ (Or.inl (Untouched.refl w)))
      by_cases hreached : (splitWrite pl).counter ≥ st.writeMark
      · -- the mark moves in the RAM before it is saved: power or the save may fail in between
        rw [if_pos hreached]
        refine wp_bind (wp_stmt ?_ (Or.inr ⟨hpasses, Or.inl rfl⟩))
        refine wp_call ?_ (fun hfault => Or.inr ⟨hfault, hpasses, hreached, rfl⟩)
          (Or.inr ⟨hpasses, Or.inr ⟨hreached, Or.inl rfl⟩⟩)
        refine wp_bind (wp_stmt ?_ (Or.inr ⟨hpasses, Or.inr ⟨hreached, Or.inr rfl⟩⟩))
        exact wp_pure (Or.inr ⟨rfl, hpasses, Or.inr ⟨hreached, rfl⟩⟩)
      · rw [if_neg hreached]
        refine wp_pure (wp_bind (wp_stmt ?_ (Or.inr ⟨hpasses, Or.inl rfl⟩)))
        exact wp_pure (Or.inr ⟨rfl, hpasses, Or.inl ⟨by omega, rfl⟩⟩)

/-- The world in which `openWrite` leaves a write it refused. -/
def refusedIn : Outcome Fault World JsError (Option Bytes) → Option World
  | .done none w _ => some w
  | .threw _ w _ => some w
  | _ => none

/-! ## Events -/

@[simp] theorem rest_accepted (l : Life) (w : World) : (l.rest w).accepted = l.accepted := by
  unfold Life.rest
  cases w.st <;> rfl

@[simp] theorem rest_world (l : Life) (w : World) : (l.rest w).world = w := by
  unfold Life.rest
  cases w.st <;> rfl

theorem step_write_world (l : Life) (pl : Bytes) (script : List (Fate Fault)) :
    (l.step ccm (.write pl script)).world = afterwards (openWrite ccm pl l.world script) := by
  simp only [Life.step]
  split
  · exact rest_world _ _
  · exact rest_world _ _

/-- No write to flash fails. -/
def FlashWorks (e : Event) : Prop := ∀ fate ∈ e.script, fate ≠ Fate.fault Fault.storage

instance : DecidablePred FlashWorks := fun e => List.decidableBAll _ e.script

end BTHomeWritable.Device
