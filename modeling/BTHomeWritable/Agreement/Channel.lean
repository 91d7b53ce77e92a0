import BTHomeWritable.Agreement.Seal
import BTHomeWritable.Device.Replay
import BTHomeWritable.Receiver.Counter
import Mathlib.Data.List.Sort

/-!
# The command channel

One receiver and one device that share a key, and whatever carries the frames
between them: it may drop, keep, repeat and reorder them, and put in bytes of its
own.  Both sides lose power and start again at any moment.

The receiver's counters ascend on the line; the device compares on a circle and
may resume up to a stride past the last frame it took.  Within half a turn less
that stride the two orders are one: what the device applies is a part of what was
commanded, in the order of the commands, and nothing of it twice.

* `Confined` says how far along the device can be: no mark of it is past the
  newest command and a stride.
* One frame: `opened_write` says what the device does with one that opens, and
  `lands_on` that its position on the device's line is its counter on the
  receiver's.  By `behind_mark` the device then keeps to its mark.
* `ChannelInv` holds the two invariants of the sides together with the lists of
  what was commanded and what was applied.  `ChannelInv.command` and
  `ChannelInv.write` are the steps that move the lists.

`applied_sublist_commanded` is the run, under a window (`Narrow`), a flash that works
(`Sound`), and bytes of others that do not open (`Unforged`).
-/

namespace BTHomeWritable.Agreement

open Device Receiver

/-- A command: the counter drawn for it and what it says. -/
structure Command where
  counter : ℤ
  plaintext : Bytes
  deriving DecidableEq

/-- Both sides, with the commands framed on the one and those opened on the other. -/
structure Channel where
  history : History
  life : Life
  commanded : List Command
  applied : List Command

namespace Channel

inductive Act where
  /-- Draws a counter and frames a command under it. -/
  | command (plaintext : Bytes)
  | receiver (op : CounterOp)
  /-- What happens to the device; the carrier chooses the bytes of every write. -/
  | device (e : Device.Event)

/-- The command that an event has the device apply. -/
def opened (aead : Aead) (l : Life) : Device.Event → Option Command
  | .write pl script =>
      match (openWrite aead pl l.world script).value? with
      | some (some plaintext) => some ⟨(splitWrite pl).counter, plaintext⟩
      | _ => none
  | _ => none

variable (aead : Aead) (key mac : Bytes)

def step (c : Channel) : Act → Channel
  | .command plaintext =>
      let counter := c.history.counters.nextWriteCounter.1
      let address := Hex.joined .upper ':' mac
      { c with
        history := c.history.step aead key address .next
        -- a counter that does not fit in its four bytes is spent all the same
        commanded := c.commanded ++
          match sealWrite aead plaintext key address counter with
          | .ok _ => [⟨counter, plaintext⟩]
          | .error _ => [] }
  | .receiver op => { c with history := c.history.step aead key (Hex.joined .upper ':' mac) op }
  | .device e =>
      { c with life := c.life.step aead e, applied := c.applied ++ (opened aead c.life e).toList }

/-- A device out of its box, or with the marks of its last owner, and a receiver that starts. -/
def begin (file : Option MarksFile) (clock : ℤ) : Channel :=
  ⟨History.begin clock, Life.powerOn file, [], []⟩

/-- The nonce and plaintext of something a key holder sealed: a command of the receiver, or
anything the device seals in one of its own two directions. -/
def Performed (c : Channel) (nonce plaintext : Bytes) : Prop :=
  (∃ x ∈ c.commanded, nonce = nonceFor mac WRITE_INFO x.counter.toNat ∧ plaintext = x.plaintext) ∨
    ∃ info counter, (info = DEV_INFO_ENC ∨ info = READ_INFO) ∧ counter < 2 ^ 32 ∧
      nonce = nonceFor mac info counter

/-- The carrier holds no key: what it delivers opens only as something a key holder sealed. -/
def Unforged (c : Channel) : Act → Prop
  | .device (.write pl _) =>
      ∀ plaintext ∈ aead.decrypt key (nonceFor mac WRITE_INFO (splitWrite pl).counter)
          (splitWrite pl).ct (splitWrite pl).mic,
        c.Performed mac (nonceFor mac WRITE_INFO (splitWrite pl).counter) plaintext
  | _ => True

/-- A carrier that only repeats what was commanded. -/
theorem unforged_of_commanded {aead : Aead} {key mac : Bytes} {c : Channel} {pl : Bytes}
    {script : List (Statements.Fate Fault)}
    (h : ∀ plaintext ∈ aead.decrypt key (nonceFor mac WRITE_INFO (splitWrite pl).counter)
        (splitWrite pl).ct (splitWrite pl).mic,
      ⟨(splitWrite pl).counter, plaintext⟩ ∈ c.commanded) :
    c.Unforged aead key mac (.device (.write pl script)) :=
  fun plaintext hopen => Or.inl ⟨_, h plaintext hopen, rfl, rfl⟩

/-- The flash works, and every setup is given the shared key and finds the same address. -/
def Sound : Act → Prop
  | .device e =>
      FlashWorks e ∧
        match e with
        | .setup opts _ => opts.key = key ∧ opts.mac = mac
        | _ => True
  | _ => True

end Channel

/-! ## How far along the device can be -/

/-- A device under `key` and `mac` with no mark past `bound`. -/
structure Confined (key mac : Bytes) (bound : ℕ) (w : World) : Prop where
  file_le : w.trail.writeFile ≤ bound
  mark_le : ∀ st ∈ w.st, w.trail.writeMark ≤ bound
  keyed : ∀ st ∈ w.st, st.key = key ∧ st.mac = mac

section Confined

variable {aead : Aead} {key mac : Bytes} {bound counter : ℕ} {w w' : World} {st : St} {l : Life}

theorem Confined.mono {bound' : ℕ} (h : Confined key mac bound w) (hle : bound ≤ bound') :
    Confined key mac bound' w where
  file_le := h.file_le.trans hle
  mark_le := fun st hst => (h.mark_le st hst).trans hle
  keyed := h.keyed

/-- The marks stand where they stood, and so does the key. -/
theorem Confined.congr (h : Confined key mac bound w)
    (hfile : w'.trail.writeFile = w.trail.writeFile)
    (hmark : w'.trail.writeMark = w.trail.writeMark)
    (hst : ∀ st' ∈ w'.st, ∃ st ∈ w.st, st'.key = st.key ∧ st'.mac = st.mac) :
    Confined key mac bound w' where
  file_le := hfile ▸ h.file_le
  mark_le := by
    intro st' hst'
    obtain ⟨st, hmem, -⟩ := hst st' hst'
    exact hmark ▸ h.mark_le st hmem
  keyed := by
    intro st' hst'
    obtain ⟨st, hmem, hkey, hmac⟩ := hst st' hst'
    exact ⟨hkey.trans (h.keyed st hmem).1, hmac.trans (h.keyed st hmem).2⟩

theorem Confined.powerOff (h : Confined key mac bound w) : Confined key mac bound w.powerOff :=
  h.congr rfl rfl (by simp [World.powerOff])

theorem Confined.untouched (h : Confined key mac bound w) (hw : Untouched w w') :
    Confined key mac bound w' := by
  obtain ⟨rejects, hst⟩ := hw.st
  refine h.congr (by rw [hw.trail]) (by rw [hw.trail]) ?_
  intro st' hst'
  rw [hst] at hst'
  obtain ⟨st, hmem, rfl⟩ := Option.map_eq_some_iff.mp hst'
  exact ⟨st, hmem, rfl, rfl⟩

theorem Confined.writeJSON (h : Confined key mac bound w) :
    Confined key mac bound w.writeJSON := by
  unfold World.writeJSON
  cases hst : w.st with
  | none => exact h
  | some st =>
      exact
        { file_le := h.mark_le st hst
          mark_le := fun _ _ => h.mark_le st hst
          keyed := fun st' hst' => h.keyed st' (hst ▸ hst') }

theorem confined_stable : SealStable (Confined key mac bound) where
  bump w h := h.congr rfl rfl (by
    intro st' hst'
    obtain ⟨st, hmem, rfl⟩ := Option.map_eq_some_iff.mp hst'
    exact ⟨st, hmem, rfl, rfl⟩)
  mark counter w h := h.congr rfl rfl (by
    intro st' hst'
    obtain ⟨st, hmem, rfl⟩ := Option.map_eq_some_iff.mp hst'
    exact ⟨st, hmem, rfl, rfl⟩)
  save _ h := h.writeJSON
  note _ _ w h := h.congr rfl rfl fun st hst => ⟨st, hst, rfl, rfl⟩

theorem Confined.swap (h : Confined key mac bound w) (opts : SetupOpts) (marks : Marks)
    (hkey : opts.key = key) (hmac : opts.mac = mac) :
    Confined key mac bound (w.swap opts marks) where
  file_le := h.file_le
  mark_le := fun _ _ => h.file_le
  keyed := by
    intro st hst
    obtain rfl : _ = st := by simpa [World.swap] using hst
    exact ⟨hkey, hmac⟩

theorem Confined.counted (h : Confined key mac bound w) (counter : ℕ) :
    Confined key mac bound (counted w counter) :=
  h.congr rfl rfl (by
    intro st' hst'
    obtain ⟨st, hmem, rfl⟩ := Option.map_eq_some_iff.mp hst'
    exact ⟨st, hmem, rfl, rfl⟩)

/-- The mark is claimed a stride above the counter that was let in. -/
theorem Confined.marked (h : Confined key mac bound w) (counter : ℕ)
    (hbound : (Device.counted w counter).trail.write + CTR_STRIDE ≤ bound) :
    Confined key mac bound (marked w counter) := by
  have hcounted := h.counted counter
  refine
    { file_le := ?_
      mark_le := fun _ _ => hbound
      keyed := ?_ }
  · show (if _ then _ else _) ≤ bound
    split
    · exact hbound
    · exact h.file_le
  · intro st' hst'
    obtain ⟨st, hmem, rfl⟩ := Option.map_eq_some_iff.mp hst'
    exact hcounted.keyed st hmem

/-- The key and the marks of a device through anything but a write. -/
theorem Confined.step (h : Confined key mac bound l.world) {e : Device.Event}
    (hsound : Channel.Sound key mac (.device e)) (hwrite : ∀ pl script, e ≠ .write pl script) :
    Confined key mac bound (l.step aead e).world := by
  match e with
  | .setup opts script =>
      have hsetup := confined_stable.wp_setup (A := fun _ => True) aead opts h
        (h.swap opts _ hsound.2.1 hsound.2.2)
      rw [Life.step, rest_world]
      exact wp_afterwards hsetup (fun w' hw => hw.powerOff) (by simp)
  | .seal pt info script =>
      have hseal := confined_stable.wp_sealUnder (A := fun _ => True) aead pt info h
      rw [Life.step, rest_world]
      exact wp_afterwards hseal (fun w' hw => hw.powerOff) (by simp)
  | .write pl script => exact absurd rfl (hwrite pl script)
  | .powerCut =>
      rw [Life.step, rest_world]
      exact h.powerOff

/-- A write moves the marks to a stride past its counter, if it passes the checks at all. -/
theorem Confined.write (h : Confined key mac bound l.world) (pl : Bytes)
    (script : List (Statements.Fate Fault))
    (hbound : ∀ st ∈ l.world.st, passes aead st pl →
      (Device.counted l.world (splitWrite pl).counter).trail.write + CTR_STRIDE ≤ bound) :
    Confined key mac bound (l.step aead (.write pl script)).world := by
  rw [step_write_world]
  cases hst : l.world.st with
  | none =>
      rw [openWrite_powerOff aead pl script hst]
      exact h
  | some st =>
      have hmarked := fun hpass => h.marked (splitWrite pl).counter (hbound st hst hpass)
      have hopen : Statements.wp (fun _ => True) (openWrite aead pl)
          (fun _ => Confined key mac bound) (fun _ => Confined key mac bound)
          (Confined key mac bound) l.world := by
        refine Statements.wp_mono (wp_openWrite aead pl hst) ?_ ?_ ?_
        · rintro result w' (⟨-, huntouched⟩ | ⟨-, hpass, ⟨-, rfl⟩ | ⟨-, rfl⟩⟩)
          · exact h.untouched huntouched
          · exact h.counted _
          · exact (hmarked hpass).writeJSON
        · rintro error w' (huntouched | ⟨-, hpass, -, rfl⟩)
          · exact h.untouched huntouched
          · exact hmarked hpass
        · rintro w' (huntouched | ⟨hpass, rfl | ⟨-, rfl | rfl⟩⟩)
          · exact h.untouched huntouched
          · exact h.counted _
          · exact hmarked hpass
          · exact (hmarked hpass).writeJSON
      exact wp_afterwards hopen (fun w' hw => hw.powerOff) (by simp)

end Confined

/-! ## One frame -/

section Frame

variable {aead : Aead} {key mac : Bytes} {l : Life} {pl : Bytes}
  {script : List (Statements.Fate Fault)} {x : Command}

/-- What a write shows when it is opened. -/
theorem opened_write (h : Channel.opened aead l (.write pl script) = some x) :
    ∃ st, l.world.st = some st ∧ passes aead st pl ∧ x.counter = (splitWrite pl).counter ∧
      aead.decrypt st.key (nonceFor st.mac WRITE_INFO (splitWrite pl).counter)
        (splitWrite pl).ct (splitWrite pl).mic = some x.plaintext ∧
      ∃ a, (l.step aead (.write pl script)).accepted = l.accepted ++ [a] ∧
        a.position = (counted l.world (splitWrite pl).counter).trail.write := by
  cases hst : l.world.st with
  | none =>
      have hrun := openWrite_powerOff aead pl script hst
      exact absurd h (by simp [Channel.opened, hrun, Statements.Outcome.value?])
  | some st =>
      have hp := wp_openWrite (A := fun _ => True) aead pl hst script (by simp)
      simp only [Channel.opened] at h
      cases hrun : openWrite aead pl l.world script with
      | threw e w' rest => simp [hrun, Statements.Outcome.value?] at h
      | cut w' => simp [hrun, Statements.Outcome.value?] at h
      | done result w' rest =>
          rw [hrun] at hp
          cases result with
          | none => simp [hrun, Statements.Outcome.value?] at h
          | some pt =>
              obtain rfl : ⟨(splitWrite pl).counter, pt⟩ = x := by
                simpa [hrun, Statements.Outcome.value?] using h
              rcases hp.1 with ⟨hnone, -⟩ | ⟨hopened, hpass, hmoved⟩
              · exact absurd hnone (by simp)
              refine ⟨st, rfl, hpass, rfl, hopened.symm, ⟨pl, w'.trail.write, l.moved,
                l.moved + (w'.trail.write - l.last), (loadMarks w'.file).w⟩, ?_, ?_⟩
              · have hsome : ∃ st', w'.st = some st' := by
                  rcases hmoved with ⟨-, rfl⟩ | ⟨-, rfl⟩ <;>
                    simp [saved, marked, counted, World.writeJSON, World.setWriteMark,
                      World.setWriteCounter, hst]
                obtain ⟨st', hst'⟩ := hsome
                simp [Life.step, hrun, Statements.Outcome.value?, Life.accept, afterwards,
                  Life.rest, hst']
              · rcases hmoved with ⟨-, rfl⟩ | ⟨-, rfl⟩
                · rfl
                · simp [saved, marked, counted, World.writeJSON, World.setWriteMark,
                    World.setWriteCounter, hst]

/-- An event that opens nothing adds nothing to what was accepted. -/
theorem accepted_of_opened_none {e : Device.Event} (h : Channel.opened aead l e = none) :
    (l.step aead e).accepted = l.accepted := by
  match e with
  | .setup opts script => exact rest_accepted _ _
  | .seal pt info script => exact rest_accepted _ _
  | .powerCut => exact rest_accepted _ _
  | .write pl script =>
      simp only [Channel.opened] at h
      simp only [Life.step]
      split
      case h_1 pt hvalue => simp [hvalue] at h
      case h_2 => exact rest_accepted _ _

end Frame

/-- Behind the last place by less than half a turn, a counter that is ahead on the circle is the
place it lands on. -/
theorem lands_on {write mark counter : ℕ} (hle : write ≤ mark) (hmark : mark < counter + 2147483648)
    (hcounter : counter < 4294967296)
    (hahead : counterIsAhead counter (write % 4294967296)) :
    write + Circular.forward 4294967296 (write % 4294967296 : ℕ) counter = counter ∧
      write < counter := by
  rw [counterIsAhead_iff] at hahead
  unfold Circular.forward at *
  omega

/-- And below the mark as a number it is behind it on the circle. -/
theorem behind_mark {mark counter : ℕ} (hmark : mark < counter + 2147483648)
    (hbelow : counter < mark % 4294967296) :
    ¬ reachedMark counter (mark % 4294967296) (CTR_WINDOW + 1) := by
  simp only [reachedMark, decide_eq_true_eq]
  rw [toUint32_sub_eq_forward]
  unfold Circular.forward CTR_WINDOW
  omega

/-! ## The invariant -/

/-- Every two places on the channel, the device's first mark among them, are less than half a turn
apart, with a stride to spare. -/
def Narrow (mark : ℕ) (h : History) : Prop :=
  ∀ i ∈ h.issued, (mark : ℤ) < i.value + (2 ^ 31 - 64) ∧
    ∀ j ∈ h.issued, j.value < i.value + (2 ^ 31 - 64)

structure ChannelInv (key mac : Bytes) (mark : ℕ) (c : Channel) : Prop where
  history : HistoryInv c.history
  replay : ReplayInv c.life
  synced : WriteSynced c.life.world
  drawn : ∀ x ∈ c.commanded, ∃ i ∈ c.history.issued, i.value = x.counter
  framed : ∀ x ∈ c.commanded, 0 ≤ x.counter ∧ x.counter < 2 ^ 32
  ascending : c.commanded.Pairwise fun x y => x.counter < y.counter
  confined : ∃ top : ℕ, (top = mark ∨ ∃ x ∈ c.commanded, x.counter = top) ∧
    Confined key mac (top + CTR_STRIDE) c.life.world
  reached : ∀ y ∈ c.applied, ∃ a ∈ c.life.accepted, (a.position : ℤ) = y.counter
  genuine : ∀ y ∈ c.applied, y ∈ c.commanded
  inOrder : c.applied.Pairwise fun x y => x.counter < y.counter

section Invariant

variable {aead : Aead} {key mac : Bytes} {mark : ℕ} {c : Channel}

variable (aead key) in
theorem issued_subset_step (h : History) (address : List Char) (op : CounterOp) :
    h.issued ⊆ (h.step aead key address op).issued := by
  cases op with
  | next => exact List.subset_append_left _ _
  | resynchronise => exact List.Subset.refl _
  | adopt report challenge =>
      simp only [History.step]
      split <;> exact List.Subset.refl _
  | restart clock => exact List.Subset.refl _

/-- Only a counter that fits in four bytes makes a frame. -/
theorem fits_of_sealWrite {plaintext frame : Bytes} {counter : ℤ}
    (h : sealWrite aead plaintext key (Hex.joined .upper ':' mac) counter = .ok frame) :
    0 ≤ counter ∧ counter < 2 ^ 32 := by
  by_contra hout
  have hbytes : toBytes counter = .error .overflowError := if_neg hout
  simp only [sealWrite, Receiver.sealUnder, nonce, Receiver.macBytes_text .upper (Or.inl rfl),
    hbytes] at h
  exact absurd h (by simp [bind, Except.bind])

theorem ChannelInv.begin (key mac : Bytes) (file : Option MarksFile) (clock : ℤ) :
    ChannelInv key mac (loadMarks file).w (Channel.begin file clock) where
  history := HistoryInv.begin clock
  replay := ReplayInv.powerOn file
  synced := by simp [WriteSynced, Channel.begin, Life.powerOn, World.powerOn]
  drawn := by simp [Channel.begin]
  framed := by simp [Channel.begin]
  ascending := by simp [Channel.begin]
  confined := ⟨_, Or.inl rfl,
    { file_le := Nat.le_add_right _ _
      mark_le := by simp [Channel.begin, Life.powerOn, World.powerOn]
      keyed := by simp [Channel.begin, Life.powerOn, World.powerOn] }⟩
  reached := by simp [Channel.begin]
  genuine := by simp [Channel.begin]
  inOrder := by simp [Channel.begin]

theorem ChannelInv.receiver (h : ChannelInv key mac mark c) (op : CounterOp) :
    ChannelInv key mac mark (c.step aead key mac (.receiver op)) :=
  { h with
    history := h.history.step op
    drawn := by
      intro x hx
      obtain ⟨i, hi, hvalue⟩ := h.drawn x hx
      exact ⟨i, issued_subset_step _ _ _ _ op hi, hvalue⟩ }

theorem ChannelInv.command (h : ChannelInv key mac mark c) (plaintext : Bytes) :
    ChannelInv key mac mark (c.step aead key mac (.command plaintext)) := by
  have hdrawn : ChannelInv key mac mark (c.step aead key mac (.receiver .next)) :=
    h.receiver .next
  have hhistory := hdrawn.history
  simp only [Channel.step] at hdrawn hhistory
  simp only [Channel.step]
  cases hframe : sealWrite aead plaintext key (Hex.joined .upper ':' mac)
      c.history.counters.nextWriteCounter.1 with
  | error e => simpa using hdrawn
  | ok frame =>
      have hnext : ∀ x ∈ c.commanded, x.counter < c.history.counters.nextWriteCounter.1 := by
        intro x hx
        obtain ⟨i, hi, hvalue⟩ := h.drawn x hx
        have hascending := hhistory.ascending
        simp only [History.step, List.map_append, List.map_singleton,
          Runs.pairwise_concat] at hascending
        exact hvalue ▸ hascending.2 i.value (List.mem_map_of_mem hi)
      have hconfined : ∃ top : ℕ, (top = mark ∨
          ∃ x ∈ c.commanded ++ [Command.mk c.history.counters.nextWriteCounter.1 plaintext],
            x.counter = (top : ℤ)) ∧ Confined key mac (top + CTR_STRIDE) c.life.world := by
        obtain ⟨top, htop, hconfined⟩ := h.confined
        refine ⟨top, ?_, hconfined⟩
        rcases htop with hfirst | ⟨x, hx, hvalue⟩
        · exact Or.inl hfirst
        · exact Or.inr ⟨x, List.mem_append_left _ hx, hvalue⟩
      exact
        { hdrawn with
          drawn := Runs.forall_mem_concat.mpr
            ⟨hdrawn.drawn, _, List.mem_append_right _ (List.mem_singleton_self _), rfl⟩
          framed := Runs.forall_mem_concat.mpr ⟨h.framed, fits_of_sealWrite hframe⟩
          ascending := Runs.pairwise_concat.mpr ⟨h.ascending, hnext⟩
          confined := hconfined
          genuine := fun y hy => List.mem_append_left _ (h.genuine y hy) }

/-- A frame that passes the checks is a command, and the mark is less than half a turn ahead of
it. -/
theorem ChannelInv.of_passes (h : ChannelInv key mac mark c) (hmac : mac.length = 6)
    (hnarrow : Narrow mark c.history) {pl : Bytes} {script : List (Statements.Fate Fault)}
    (hunforged : c.Unforged aead key mac (.device (.write pl script))) {st : St}
    (hst : c.life.world.st = some st) (hpass : passes aead st pl) :
    ∃ plaintext, aead.decrypt st.key (nonceFor st.mac WRITE_INFO (splitWrite pl).counter)
        (splitWrite pl).ct (splitWrite pl).mic = some plaintext ∧
      ⟨(splitWrite pl).counter, plaintext⟩ ∈ c.commanded ∧
      c.life.world.trail.writeMark < (splitWrite pl).counter + 2147483648 := by
  obtain ⟨top, htop, hconfined⟩ := h.confined
  obtain ⟨hkey, hmac'⟩ := hconfined.keyed st hst
  obtain ⟨plaintext, hopen⟩ := Option.isSome_iff_exists.mp (isSome_decrypt_of_passes hpass)
  have hlt := splitWrite_counter_lt pl
  rw [hkey, hmac'] at hopen
  refine ⟨plaintext, by rw [hkey, hmac']; exact hopen, ?_⟩
  rcases hunforged plaintext hopen with
    ⟨⟨drawn, _⟩, hx, hnonce, rfl⟩ | ⟨info, counter, hinfo, hcounter, hnonce⟩
  · obtain ⟨hlow, hhigh⟩ : 0 ≤ drawn ∧ drawn < 2 ^ 32 := h.framed _ hx
    have hfits : drawn.toNat < 4294967296 := by omega
    obtain ⟨-, -, hsame⟩ := nonceFor_inj hmac hmac hlt hfits hnonce
    obtain rfl : ((splitWrite pl).counter : ℤ) = drawn := by omega
    refine ⟨hx, ?_⟩
    obtain ⟨i, hi, hvalue⟩ := h.drawn _ hx
    obtain ⟨hmark, hspan⟩ := hnarrow i hi
    have htop' : (top : ℤ) < i.value + (2 ^ 31 - 64) := by
      rcases htop with rfl | ⟨y, hy, hy'⟩
      · exact hmark
      · obtain ⟨j, hj, hj'⟩ := h.drawn y hy
        have hjspan := hspan j hj
        omega
    have hle := hconfined.mark_le st hst
    simp only at hvalue
    unfold CTR_STRIDE at hle
    omega
  · -- the device's own directions are other bytes of the nonce
    obtain ⟨-, hdirection, -⟩ := nonceFor_inj hmac hmac hlt (by omega) hnonce
    rcases hinfo with rfl | rfl <;> exact absurd hdirection (by decide)

/-- What may be said of a device's event that needs nothing more from the carrier. -/
theorem ChannelInv.quiet (h : ChannelInv key mac mark c) {e : Device.Event}
    (hsound : Channel.Sound key mac (.device e)) (hwrite : ∀ pl script, e ≠ .write pl script) :
    ChannelInv key mac mark (c.step aead key mac (.device e)) := by
  obtain ⟨top, htop, hconfined⟩ := h.confined
  have hopened : Channel.opened aead c.life e = none := by
    cases e with
    | write pl script => exact absurd rfl (hwrite pl script)
    | _ => rfl
  have hbehind : BehindMark aead c.life e := by
    cases e with
    | write pl script => exact absurd rfl (hwrite pl script)
    | _ => trivial
  simp only [Channel.step, hopened, Option.toList_none, List.append_nil]
  exact
    { h with
      replay := h.replay.step e hbehind (h.synced.markSaved h.replay.world e)
      synced := h.synced.step hsound.1
      confined := ⟨top, htop, hconfined.step hsound hwrite⟩
      reached := by
        rw [accepted_of_opened_none hopened]
        exact h.reached }

/-- What is taken from the air was commanded, and after everything taken before it. -/
theorem ChannelInv.write (h : ChannelInv key mac mark c) (hmac : mac.length = 6)
    (hnarrow : Narrow mark c.history) {pl : Bytes} {script : List (Statements.Fate Fault)}
    (hsound : Channel.Sound key mac (.device (.write pl script)))
    (hunforged : c.Unforged aead key mac (.device (.write pl script))) :
    ChannelInv key mac mark (c.step aead key mac (.device (.write pl script))) := by
  have hlt := splitWrite_counter_lt pl
  -- what passes was commanded, so it is near enough for circle and line to agree on where
  -- it lands
  have hlands : ∀ st ∈ c.life.world.st, passes aead st pl →
      (counted c.life.world (splitWrite pl).counter).trail.write = (splitWrite pl).counter ∧
        c.life.world.trail.write < (splitWrite pl).counter := by
    intro st hst hpass
    have hlive := h.replay.world.live st hst
    obtain ⟨-, -, -, hnear⟩ := h.of_passes hmac hnarrow hunforged hst hpass
    have hahead := ahead_of_passes hpass
    rw [hlive.counter] at hahead
    rw [counted_write _ hst, hlive.counter]
    exact lands_on hlive.le_mark hnear hlt hahead
  have hbehind : BehindMark aead c.life (.write pl script) := by
    intro st hst hpass hbelow
    obtain ⟨-, -, -, hnear⟩ := h.of_passes hmac hnarrow hunforged hst hpass
    rw [(h.replay.world.live st hst).mark] at hbelow ⊢
    exact behind_mark hnear hbelow
  -- the device is confined by the newest command still, unless this one is further along
  have hconfined : ∃ top : ℕ, (top = mark ∨ ∃ x ∈ c.commanded, x.counter = top) ∧
      Confined key mac (top + CTR_STRIDE) (c.life.step aead (.write pl script)).world := by
    obtain ⟨top, htop, hconfined⟩ := h.confined
    by_cases hfurther : ∃ st ∈ c.life.world.st, passes aead st pl ∧ top < (splitWrite pl).counter
    · obtain ⟨st, hst, hpass, htop'⟩ := hfurther
      obtain ⟨plaintext, -, hcommanded, -⟩ := h.of_passes hmac hnarrow hunforged hst hpass
      refine ⟨(splitWrite pl).counter, Or.inr ⟨_, hcommanded, rfl⟩, ?_⟩
      refine (hconfined.mono (by omega)).write pl script fun st hst hpass => ?_
      rw [(hlands st hst hpass).1]
    · refine ⟨top, htop, hconfined.write pl script fun st hst hpass => ?_⟩
      rw [(hlands st hst hpass).1]
      have hnot : ¬ top < (splitWrite pl).counter := fun hlt => hfurther ⟨st, hst, hpass, hlt⟩
      omega
  have hreplay := h.replay.step _ hbehind (h.synced.markSaved h.replay.world (.write pl script))
  have hsynced : WriteSynced (c.life.step aead (.write pl script)).world :=
    h.synced.step hsound.1
  simp only [Channel.step]
  cases hopened : Channel.opened aead c.life (.write pl script) with
  | none =>
      simp only [Option.toList_none, List.append_nil]
      exact
        { h with
          replay := hreplay
          synced := hsynced
          confined := hconfined
          reached := by
            rw [accepted_of_opened_none hopened]
            exact h.reached }
  | some x =>
      obtain ⟨st, hst, hpass, hcounter, hopen, a, haccepted, hposition⟩ := opened_write hopened
      obtain ⟨plaintext, hplaintext, hcommanded, -⟩ :=
        h.of_passes hmac hnarrow hunforged hst hpass
      obtain ⟨hland, hafter⟩ := hlands st hst hpass
      have hx : x ∈ c.commanded := by
        obtain rfl := Option.some.inj (hopen.symm.trans hplaintext)
        rwa [← hcounter] at hcommanded
      -- what was applied before lies behind the place where this one lands
      have hlast : ∀ y ∈ c.applied, y.counter < x.counter := by
        intro y hy
        obtain ⟨b, hb, hb'⟩ := h.reached y hy
        have hreached := h.replay.world.reached st hst b hb
        omega
      simp only [Option.toList_some]
      exact
        { h with
          replay := hreplay
          synced := hsynced
          confined := hconfined
          reached := by
            rw [haccepted]
            refine Runs.forall_mem_concat.mpr ⟨fun y hy => ?_, a, by simp, by omega⟩
            obtain ⟨b, hb, hb'⟩ := h.reached y hy
            exact ⟨b, List.mem_append_left _ hb, hb'⟩
          genuine := Runs.forall_mem_concat.mpr ⟨h.genuine, hx⟩
          inOrder := Runs.pairwise_concat.mpr ⟨h.inOrder, hlast⟩ }

theorem ChannelInv.step (h : ChannelInv key mac mark c) (hmac : mac.length = 6)
    (hnarrow : Narrow mark c.history) {act : Channel.Act} (hsound : Channel.Sound key mac act)
    (hunforged : c.Unforged aead key mac act) :
    ChannelInv key mac mark (c.step aead key mac act) := by
  match act with
  | .command plaintext => exact h.command plaintext
  | .receiver op => exact h.receiver op
  | .device (.write pl script) => exact h.write hmac hnarrow hsound hunforged
  | .device (.setup opts script) => exact h.quiet hsound (by simp)
  | .device (.seal pt info script) => exact h.quiet hsound (by simp)
  | .device .powerCut => exact h.quiet hsound (by simp)

theorem issued_subset_channel_step (c : Channel) (act : Channel.Act) :
    c.history.issued ⊆ (c.step aead key mac act).history.issued := by
  have hreceiver := issued_subset_step aead key c.history (Hex.joined .upper ':' mac)
  match act with
  | .command plaintext => exact hreceiver .next
  | .receiver op => exact hreceiver op
  | .device e => exact List.Subset.refl _

/-- Narrow at the end, narrow all along. -/
theorem along_narrow {acts : List Channel.Act}
    (hnarrow : Narrow mark (Runs.run (Channel.step aead key mac) c acts).history) :
    Runs.Along (Channel.step aead key mac) (fun c _ => Narrow mark c.history) c acts := by
  have hback : ∀ (c : Channel) (act : Channel.Act),
      Narrow mark (c.step aead key mac act).history → Narrow mark c.history := by
    intro c act h i hi
    obtain ⟨hmark, hspan⟩ := h i (issued_subset_channel_step c act hi)
    exact ⟨hmark, fun j hj => hspan j (issued_subset_channel_step c act hj)⟩
  exact Runs.Along.of_end hback hnarrow

end Invariant

/-- Over every run, whatever the carrier drops, repeats, reorders and makes up and wherever either
side loses its power, what the device applies is a part of what the receiver commanded, in the
order of the commands and nothing of it twice. -/
theorem applied_sublist_commanded (aead : Aead) (key mac : Bytes) (file : Option MarksFile)
    (clock : ℤ) (acts : List Channel.Act) (hmac : mac.length = 6)
    (hsound : ∀ act ∈ acts, Channel.Sound key mac act)
    (hunforged : Runs.Along (Channel.step aead key mac) (Channel.Unforged aead key mac)
      (Channel.begin file clock) acts)
    (hnarrow : Narrow (loadMarks file).w
      (Runs.run (Channel.step aead key mac) (Channel.begin file clock) acts).history) :
    let c := Runs.run (Channel.step aead key mac) (Channel.begin file clock) acts
    c.applied.Sublist c.commanded ∧ c.applied.Nodup := by
  intro c
  have halong := (along_narrow hnarrow).and
    ((Runs.Along.of_forall hsound).and hunforged)
  have hinv : ChannelInv key mac (loadMarks file).w c :=
    Runs.run_invariant (fun _ _ h hact => h.step hmac hact.1 hact.2.1 hact.2.2)
      (ChannelInv.begin key mac file clock) halong
  have hnodup : c.applied.Nodup := hinv.inOrder.imp fun hlt heq => by simp [heq] at hlt
  have hantisymm : Std.Antisymm fun x y : Command => x.counter < y.counter :=
    ⟨fun x y hxy hyx => absurd hxy (lt_asymm hyx)⟩
  have hsubperm := List.subperm_of_subset hnodup hinv.genuine
  exact ⟨List.sublist_of_subperm_of_pairwise hsubperm hinv.inOrder hinv.ascending, hnodup⟩

/-- The second of three commands arrives after the third, which was heard twice. -/
def sampleActs : List Channel.Act :=
  [.device (.setup sampleOpts []), .command [0x0F, 0x01], .device (.write (sampleFrame 6) []),
    .command [0x0F, 0x01], .command [0x0F, 0x01], .device (.write (sampleFrame 8) []),
    .device (.write (sampleFrame 8) []), .device (.write (sampleFrame 7) [])]

theorem applied_sublist_commanded_sample :
    let c := Runs.run (Channel.step sampleCcm sampleOpts.key sampleOpts.mac)
      (Channel.begin none 5) sampleActs
    c.applied.Sublist c.commanded ∧ c.applied.Nodup := by
  refine applied_sublist_commanded sampleCcm sampleOpts.key sampleOpts.mac none 5 sampleActs
    (by decide) ?_ ?_ ?_
  · simp [sampleActs, Channel.Sound, FlashWorks, Event.script]
  · exact ⟨trivial, trivial, Channel.unforged_of_commanded (by decide +kernel), trivial, trivial,
      Channel.unforged_of_commanded (by decide +kernel),
      Channel.unforged_of_commanded (by decide +kernel),
      Channel.unforged_of_commanded (by decide +kernel), trivial⟩
  · unfold Narrow
    decide +kernel

end BTHomeWritable.Agreement
