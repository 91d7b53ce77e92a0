import BTHomeWritable.Device.Nonces
import BTHomeWritable.Device.Replay

/-!
# When the flash refuses a write

`noteAdvCounter` and `noteWriteCounter` move the mark in the RAM first and save
it second.  A save that throws leaves a mark that the flash does not have, and
from then on the comparison with the mark believes in it.  `Guarded` says that
nothing is sealed and nothing accepted on the strength of such a mark; along a
run that keeps to it, whatever the flash does, everything used stays behind
what a reboot would resume from.

`Guarded` is the conjunction of the conditions of the two counters, `SealsSynced`
of the advertising counter and `BehindMark` with `MarkSaved` of the write counter,
so that `AdvInv.run` and `ReplayInv.run` go through unchanged.
`flashAhead_of_invariants` reads `FlashAhead` off the two invariants, and
`flash_ahead_of_guarded_run` puts them together with the bounds they give on
nonces and replays.  In `accepted_ahead_of_flash` the flash fails once.
-/

namespace BTHomeWritable.Device

open Statements

variable {ccm : Aead} {l : Life}

/-- Nothing is sealed, and nothing accepted without a save, under a mark that is not on flash,
and no accepted counter has wrapped past its mark. -/
def Guarded (ccm : Aead) (l : Life) (e : Event) : Prop :=
  SealsSynced l e ∧ BehindMark ccm l e ∧ MarkSaved ccm l e

instance (l : Life) : DecidablePred (Guarded ccm l) :=
  fun e => inferInstanceAs (Decidable (SealsSynced l e ∧ BehindMark ccm l e ∧ MarkSaved ccm l e))

/-- The flash is ahead of `u` when `u` is sealed, and ahead of `a` when `a` is accepted; and so it
is later, as far as half a circle can tell. -/
structure FlashAhead (l : Life) : Prop where
  sealed : ∀ u ∈ l.world.sealed, counterIsAhead u.onFlash u.counter
  sealed_later : ∀ u ∈ l.world.sealed, l.world.trail.advFile ≤ u.position + 0x80000000 →
    counterIsAhead (loadMarks l.world.file).a u.counter
  accepted : ∀ a ∈ l.accepted, counterIsAhead a.onFlash (splitWrite a.frame).counter
  accepted_later : ∀ a ∈ l.accepted, l.world.trail.writeFile ≤ a.position + 0x80000000 →
    counterIsAhead (loadMarks l.world.file).w (splitWrite a.frame).counter

theorem flashAhead_of_invariants {start : ℕ} (hadv : AdvInv start l.world) (hwrite : ReplayInv l) :
    FlashAhead l where
  sealed := hadv.flash.covered
  sealed_later := by
    intro u hu hnear
    have hbehind := hadv.flash.behind u hu
    have hle := hadv.flash.adv_le
    rw [hadv.flash.file, hadv.flash.counter u hu]
    exact ahead_of_behind (by omega) hnear
  accepted := hwrite.covered
  accepted_later := by
    intro a ha hnear
    rw [hwrite.world.file, hwrite.frame a ha]
    exact ahead_of_behind (hwrite.world.behind a ha) hnear

/-- Whatever saves throw: along a guarded run the flash stays ahead of everything sealed and
accepted, no pair is sealed twice, and no write is accepted again before half a turn. -/
theorem flash_ahead_of_guarded_run (ccm : Aead) (file : Option MarksFile) (events : List Event)
    (hguard : Runs.Along (Life.step ccm) (Guarded ccm) (Life.powerOn file) events) :
    let l := Runs.run (Life.step ccm) (Life.powerOn file) events
    FlashAhead l ∧
      (l.world.trail.spent < 2 ^ 32 →
        (l.world.sealed.map fun u => (u.info, u.counter)).Nodup) ∧
      l.accepted.Pairwise fun a b => a.frame = b.frame → a.after + 0x80000000 ≤ b.before := by
  intro l
  have hinit : AdvInv (loadMarks file).a (Life.powerOn file).world := AdvInv.powerOn file
  have hseals : Runs.Along (Life.step ccm) SealsSynced (Life.powerOn file) events :=
    hguard.mono fun _ _ he => he.1
  have hwrites : Runs.Along (Life.step ccm) (fun l e => BehindMark ccm l e ∧ MarkSaved ccm l e)
      (Life.powerOn file) events := hguard.mono fun _ _ he => he.2
  have hadv : AdvInv (loadMarks file).a l.world := hinit.run hseals
  have hwrite : ReplayInv l := (ReplayInv.powerOn file).run hwrites
  refine ⟨flashAhead_of_invariants hadv hwrite, ?_, hwrite.replay⟩
  intro hspent
  exact hadv.flash.pairs_nodup (by norm_num at hspent ⊢; exact hspent)

/-- A save that throws under the first write, and one that works under the second. -/
def sampleFailure : List Event :=
  [.setup sampleOpts [], .write (sampleFrame 1) [.go, .go, .go, .fault .storage],
    .write (sampleFrame 70) [], .seal [0x00, 0x02] READ_INFO []]

theorem flash_ahead_of_guarded_run_sample :
    let l := Runs.run (Life.step sampleCcm) (Life.powerOn none) sampleFailure
    FlashAhead l ∧
      (l.world.trail.spent < 2 ^ 32 →
        (l.world.sealed.map fun u => (u.info, u.counter)).Nodup) ∧
      l.accepted.Pairwise fun a b => a.frame = b.frame → a.after + 0x80000000 ≤ b.before :=
  flash_ahead_of_guarded_run sampleCcm none sampleFailure (by decide +kernel)

/-- The save under frame 1 throws, and frame 2 is accepted without one: the flash still says 0,
and after a reboot frame 2 is accepted again. -/
theorem accepted_ahead_of_flash :
    ∃ events : List Event,
      let l := Runs.run (Life.step sampleCcm) (Life.powerOn none) events
      (∃ a ∈ l.accepted, ¬ counterIsAhead a.onFlash (splitWrite a.frame).counter) ∧
        ¬ l.accepted.Pairwise fun a b => a.frame = b.frame → a.after + 0x80000000 ≤ b.before :=
  ⟨[.setup sampleOpts [], .write (sampleFrame 1) [.go, .go, .go, .fault .storage],
    .write (sampleFrame 2) [], .powerCut, .setup sampleOpts [], .write (sampleFrame 2) []],
    by decide +kernel⟩

end BTHomeWritable.Device
