import BTHomeWritable.Agreement.Seal
import BTHomeWritable.Receiver.Asking

/-!
# Resynchronising the write counter

A receiver that has lost its place asks the device for its last-accepted
counter on the link of a write, adopts what the sealed report says and draws
the next counter from there.  The device then compares on the circle, the
receiver on the line; the two agree as long as the receiver is less than half a
turn ahead of the device and neither stands at the top of the range.

`drawn` is the counter the receiver draws next and `InReach` the condition on it.
Under that it fits its four bytes and is ahead on the circle (`drawn_fits_and_ahead`),
and a frame under a counter that is ahead is opened (`write_accepted`).
`resynchronised_command_accepted` is the exchange as a whole;
`far_ahead_receiver_stays_refused` is a receiver that asking does not help.
-/

namespace BTHomeWritable.Agreement

open Statements Device Receiver

/-- The receiver's next counter after adopting a report of `last`. -/
def drawn (counter : ℤ) (last : ℕ) : ℤ := max counter (((last : ℤ) + 1) % 2 ^ 32) + 1

theorem nextWriteCounter_adopt (c : Counters) (last : ℕ) :
    ((c.adopt (some last)).2.nextWriteCounter).1 = drawn c.counter last := by
  have hnext : ∀ c : Counters, c.nextWriteCounter.1 = c.counter + 1 := by
    intro c
    unfold Counters.nextWriteCounter
    split <;> rfl
  rw [hnext]
  unfold drawn
  simp only [Counters.adopt]
  by_cases hbehind : ((last : ℤ) + 1) % 2 ^ 32 ≤ c.counter
  · rw [if_pos hbehind, max_eq_left hbehind]
  · rw [if_neg hbehind, max_eq_right (by omega)]
    rfl

/-- Where plain order and circular order agree. -/
def InReach (counter : ℤ) (last : ℕ) : Prop :=
  (last ≤ 2 ^ 32 - 3 ∧ counter ≤ 2 ^ 32 - 2 ∧ counter < last + 2 ^ 31) ∨
    (last = 2 ^ 32 - 1 ∧ counter ≤ 2 ^ 31 - 2)

theorem drawn_fits_and_ahead {counter : ℤ} {last : ℕ} (hcounter : 0 ≤ counter)
    (hreach : InReach counter last) :
    ∃ next : ℕ, drawn counter last = next ∧ next < 4294967296 ∧ counterIsAhead next last := by
  -- the receiver never draws below zero, so `to_bytes` can only fail at the top
  obtain ⟨next, hnext⟩ : ∃ next : ℕ, drawn counter last = next :=
    Int.eq_ofNat_of_zero_le (by unfold drawn; omega)
  unfold drawn InReach at *
  have hlt : next < 4294967296 := by omega
  refine ⟨next, hnext, hlt, ?_⟩
  rw [counterIsAhead_iff]
  unfold Circular.forward
  omega

variable (key mac : Bytes)

/-- A command framed under a counter that is ahead of the device's is accepted by it. -/
theorem write_accepted (hcorrect : aead.Correct 4) {pt : Bytes} {next : ℕ} (hpt : pt ≠ [])
    (hnext : next < 4294967296) :
    ∃ frame, Receiver.sealWrite aead pt key (Hex.joined .upper ':' mac) next = .ok frame ∧
      ∀ w st, w.st = some st → st.key = key → st.mac = mac →
        counterIsAhead next st.writeCounter →
          (openWrite aead frame w []).value? = some (some pt) := by
  refine ⟨_, sealUnder_eq_sealedWith hcorrect hnext, ?_⟩
  rintro w st hst rfl rfl hahead
  exact openWrite_sealedWith hcorrect hpt hnext hst hahead

/-- S5.6: after a genuine report of `st.writeCounter`, within reach, the next counter fits and the
command that carries it is accepted; and no reply of any kind lowers the counter. -/
theorem resynchronised_command_accepted (aead : Aead) (hcorrect : aead.Correct 4)
    (a : Asking) (challenge : Bytes) (w : World) (st : St) (script : List (Fate Fault))
    (answer : Bytes) (w' : World) (rest : List (Fate Fault))
    (hchallenge : challenge.length = CHALLENGE_LENGTH) (hst : w.st = some st)
    (hadv : st.advCounter < 2 ^ 32) (hlast : st.writeCounter < 2 ^ 32)
    (hcounter : 0 ≤ a.counters.counter)
    (hrun : counterCharacteristic aead challenge w script = .done (some answer) w' rest)
    (hreach : InReach a.counters.counter st.writeCounter) :
    (∃ a', askForTheCounterHere aead st.key (Hex.joined .upper ':' st.mac) a challenge
        (.report answer) = .ok a' ∧
      ∃ next : ℕ, (a'.counters.nextWriteCounter).1 = next ∧ next < 2 ^ 32 ∧
        counterIsAhead next st.writeCounter ∧
        ∀ pt ≠ [], ∃ frame,
          Receiver.sealWrite aead pt st.key (Hex.joined .upper ':' st.mac) next = .ok frame ∧
          ∀ w₂ st₂, w₂.st = some st₂ → st₂.key = st.key → st₂.mac = st.mac →
            st₂.writeCounter = st.writeCounter →
              (openWrite aead frame w₂ []).value? = some (some pt)) ∧
      ∀ reply a', askForTheCounterHere aead st.key (Hex.joined .upper ':' st.mac) a challenge
        reply = .ok a' → a.counters.counter ≤ a'.counters.counter := by
  norm_num at hadv hlast
  refine ⟨?_, fun reply a' hask => counter_le_askForTheCounterHere hask⟩
  have hp := wp_counterCharacteristic aead hst hchallenge script (by simp)
  rw [hrun] at hp
  obtain rfl := Option.some.inj hp.1
  have hopen : Receiver.openCounterReport aead (sealedWith aead st.key st.mac
      (challenge ++ counterBytes st.writeCounter) READ_INFO st.advCounter) st.key
      (Hex.joined .upper ':' st.mac) challenge = .ok (some st.writeCounter) := by
    rw [openCounterReport_answer hcorrect hadv hlast, if_pos rfl]
  obtain ⟨next, hdrawn, hfits, hahead⟩ := drawn_fits_and_ahead hcounter hreach
  have hask : askForTheCounterHere aead st.key (Hex.joined .upper ':' st.mac) a challenge
      (.report (sealedWith aead st.key st.mac (challenge ++ counterBytes st.writeCounter) READ_INFO
        st.advCounter)) =
      .ok ⟨(a.counters.adopt (some st.writeCounter)).2, false, some true, false⟩ := by
    simp only [askForTheCounterHere, adoptCounter, hopen]
    rfl
  refine ⟨_, hask, next, (nextWriteCounter_adopt a.counters st.writeCounter).trans hdrawn,
    by norm_num; exact hfits, hahead, ?_⟩
  intro pt hpt
  obtain ⟨frame, hframe, haccept⟩ := write_accepted st.key st.mac hcorrect hpt hfits
  refine ⟨frame, hframe, ?_⟩
  intro w₂ st₂ hst₂ hkey hmac hsame
  exact haccept w₂ st₂ hst₂ hkey hmac (by rw [hsame]; exact hahead)

/-- A keyed device whose last accepted write carried `last`. -/
def sampleDevice (last : ℕ) : World :=
  { World.powerOn none with
    st := some
      { key := sampleOpts.key
        mac := sampleOpts.mac
        advCounter := 7
        advMark := 1000000
        writeCounter := last
        writeMark := last + 64
        rejects := fun _ => 0
        onError := false } }

/-- A receiver that stands at `counter` and has been told to ask. -/
def sampleAsking (counter : ℤ) : Asking := ⟨⟨counter, counter, []⟩, true, none, false⟩

def sampleChallenge : Bytes := [1, 2, 3, 4, 5, 6, 7, 8]

/-- A device at the top of the range, and a receiver that started from its clock. -/
theorem resynchronised_command_accepted_sample :
    ∃ st answer w' rest, (sampleDevice 0xFFFFFFFF).st = some st ∧
      counterCharacteristic sampleCcm sampleChallenge (sampleDevice 0xFFFFFFFF) [] =
        .done (some answer) w' rest ∧
      ∃ a', askForTheCounterHere sampleCcm st.key (Hex.joined .upper ':' st.mac)
        (sampleAsking 1760000000) sampleChallenge (.report answer) = .ok a' ∧
        ∃ next : ℕ, (a'.counters.nextWriteCounter).1 = next ∧ next < 2 ^ 32 ∧
          counterIsAhead next st.writeCounter := by
  refine ⟨_, _, _, _, rfl, rfl, ?_⟩
  obtain ⟨⟨a', hask, next, hnext, hfits, hahead, -⟩, -⟩ :=
    resynchronised_command_accepted sampleCcm (Aead.tagging_ideal [] []).toCorrect
      (sampleAsking 1760000000) sampleChallenge (sampleDevice 0xFFFFFFFF) _ [] _ _ _ (by decide)
      rfl (by decide) (by decide) (by decide) rfl (by unfold InReach sampleAsking; decide)
  exact ⟨a', hask, next, hnext, hfits, hahead⟩

/-- A receiver half a turn ahead of the device adopts nothing, and what it draws next the device
takes for a step back. -/
theorem far_ahead_receiver_stays_refused :
    ∃ answer w' rest a', counterCharacteristic sampleCcm sampleChallenge (sampleDevice 0) [] =
        .done (some answer) w' rest ∧
      askForTheCounterHere sampleCcm sampleOpts.key (Hex.joined .upper ':' sampleOpts.mac)
        (sampleAsking 0x80000000) sampleChallenge (.report answer) = .ok a' ∧
      ¬ counterIsAhead (a'.counters.nextWriteCounter).1.toNat 0 :=
  ⟨_, _, _, _, rfl, rfl, by decide⟩

end BTHomeWritable.Agreement
