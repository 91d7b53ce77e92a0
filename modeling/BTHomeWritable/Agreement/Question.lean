import BTHomeWritable.Agreement.Channel
import BTHomeWritable.Receiver.Asking

/-!
# How old a counter report can be

The receiver puts its question over a link it does not trust: what comes back may
be the answer to another question, an answer of long ago, a sealed read, or
anything else.  A report is adopted only if it repeats the eight bytes drawn for
this question, so it was made after they were drawn, and by then the device had
gone past everything it had accepted before.

`Inquiry` is a device with the questions it has answered.  `Asked before s` says of the
device after the question that each answer is one it had given before or one from a
position no earlier than anything accepted before; `Asked.step` is the step, under
the conditions of the device's own invariant (`Sound`).  `of_adoptCounter` is the
receiver's end: to adopt is to have opened a report with the eight bytes in it.

`adopted_report_is_current` puts the two together.  Its hypotheses are that these
eight bytes have not been answered before, and that a report which opens is an
answer of the device or something else it has sealed, which does not begin with
them (`Readable`).
-/

namespace BTHomeWritable.Agreement

open Device Receiver Statements

/-- A challenge the device answered, and where its last-accepted counter stood. -/
structure Answer where
  challenge : Bytes
  counter : ℕ
  position : ℕ
  deriving DecidableEq

/-- A device with the questions it has answered, whoever asked them. -/
structure Inquiry where
  life : Life
  answers : List Answer

namespace Inquiry

inductive Act where
  | device (e : Device.Event)
  /-- The counter characteristic is written. -/
  | challenge (data : Bytes) (script : List (Fate Fault))

variable (aead : Aead)

/-- The answer left to be read, if the question gets one. -/
def answer (l : Life) (data : Bytes) (script : List (Fate Fault)) : Option Answer :=
  match l.world.st, (counterCharacteristic aead data l.world script).value? with
  | some st, some (some _) => some ⟨data, st.writeCounter, l.world.trail.write⟩
  | _, _ => none

def step (s : Inquiry) : Act → Inquiry
  | .device e => { s with life := s.life.step aead e }
  | .challenge data script =>
      { life := s.life.rest (afterwards (counterCharacteristic aead data s.life.world script))
        answers := s.answers ++ (answer aead s.life data script).toList }

/-- The plaintexts a report can open to: those of answers, and those of the device's other sealed
reads, none of which begins with the bytes drawn for this question. -/
def Readable (s : Inquiry) (challenge plaintext : Bytes) : Prop :=
  (∃ a ∈ s.answers, plaintext = a.challenge ++ counterBytes a.counter) ∨
    ¬ challenge <+: plaintext

/-- The flash works, and the device keeps to its mark. -/
def Sound (s : Inquiry) : Act → Prop
  | .device e => FlashWorks e ∧ BehindMark aead s.life e
  | .challenge _ _ => True

instance (s : Inquiry) : DecidablePred (Sound aead s)
  | .device e => inferInstanceAs (Decidable (FlashWorks e ∧ BehindMark aead s.life e))
  | .challenge _ _ => inferInstanceAs (Decidable True)

end Inquiry

variable {aead : Aead} {w : World} {l : Life} {s : Inquiry}

/-- Answering is sealing, and refusing to answer touches nothing. -/
theorem stable_counterCharacteristic {I : World → Prop} (stable : SealStable I)
    (huntouched : ∀ w w', I w → Untouched w w' → I w') (data : Bytes) (h : I w) :
    wp (fun _ => True) (counterCharacteristic aead data) (fun _ => I) (fun _ => I) I w := by
  unfold counterCharacteristic withSt
  by_cases hlength : data.length ≠ CHALLENGE_LEN
  · rw [if_pos hlength]
    have hrefuse := fun w' hw => huntouched w w' h hw
    exact wp_bind (wp_mono (wp_reject _) (fun _ w' hw => wp_pure (hrefuse w' hw))
      (fun _ => hrefuse) hrefuse)
  · rw [if_neg hlength]
    refine wp_bind (wp_read ?_)
    cases w.st with
    | none => exact wp_raise h
    | some st =>
        exact wp_bind (wp_mono (stable.wp_sealUnder aead _ _ h) (fun _ _ hw => wp_pure hw)
          (fun _ _ hw => hw) (fun _ hw => hw))

theorem replayInv_challenge (h : ReplayInv l) (data : Bytes) (script : List (Fate Fault)) :
    ReplayInv (l.rest (afterwards (counterCharacteristic aead data l.world script))) := by
  have hanswer : wp (fun _ => True) (counterCharacteristic aead data)
      (fun _ => WriteInv l.accepted) (fun _ => WriteInv l.accepted) (WriteInv l.accepted)
      l.world :=
    stable_counterCharacteristic writeInv_stable
      (fun _ _ hw huntouched => hw.congr huntouched.sameWriteSide) data h.world
  exact h.rest (wp_afterwards hanswer (fun w' hw => hw.powerOff) (by simp))

theorem writeSynced_challenge (h : WriteSynced w) (data : Bytes) (script : List (Fate Fault)) :
    WriteSynced (afterwards (counterCharacteristic aead data w script)) := by
  have hanswer : wp (fun _ => True) (counterCharacteristic aead data)
      (fun _ => WriteSynced) (fun _ => WriteSynced) WriteSynced w :=
    stable_counterCharacteristic writeSynced_stable
      (fun _ _ hw huntouched => hw.congr huntouched.sameWriteSide) data h
  exact wp_afterwards hanswer (fun w' _ => WriteSynced.powerOff w') (by simp)

theorem eq_of_answer {a : Answer} {data : Bytes} {script : List (Fate Fault)}
    (h : a ∈ Inquiry.answer aead l data script) :
    ∃ st, l.world.st = some st ∧ a = ⟨data, st.writeCounter, l.world.trail.write⟩ := by
  unfold Inquiry.answer at h
  split at h
  case h_1 st report hst hvalue => exact ⟨st, hst, (Option.some.inj h).symm⟩
  case h_2 => exact absurd h (by simp)

/-- Only a challenge of the right length is answered. -/
theorem length_of_answer {a : Answer} {data : Bytes} {script : List (Fate Fault)}
    (h : a ∈ Inquiry.answer aead l data script) : a.challenge.length = CHALLENGE_LEN := by
  obtain ⟨st, hst, rfl⟩ := eq_of_answer h
  by_contra hlength
  have hrefuse : wp (fun _ => True) (counterCharacteristic aead data)
      (fun report _ => report = none) (fun _ _ => True) (fun _ => True) l.world := by
    unfold counterCharacteristic
    rw [if_pos hlength]
    exact wp_bind (wp_mono (wp_trivial _) (fun _ _ _ => wp_pure rfl) (fun _ _ _ => trivial)
      (fun _ _ => trivial))
  have hp := hrefuse script (by simp)
  unfold Inquiry.answer at h
  cases hrun : counterCharacteristic aead data l.world script with
  | done report w' rest =>
      rw [hrun] at hp
      obtain rfl : report = none := hp.1
      simp [hrun, Outcome.value?] at h
  | threw e w' rest => simp [hrun, Outcome.value?] at h
  | cut w' => simp [hrun, Outcome.value?] at h

/-! ## Before and after the question -/

/-- The device after the question was put: `before` is what it had answered and accepted by
then. -/
structure Asked (before s : Inquiry) : Prop where
  replay : ReplayInv s.life
  synced : WriteSynced s.life.world
  kept : before.life.accepted ⊆ s.life.accepted
  answers : ∀ a ∈ s.answers,
    a ∈ before.answers ∨ ∀ b ∈ before.life.accepted, b.position ≤ a.position
  counters : ∀ a ∈ s.answers, a.counter = a.position % 2 ^ 32
  lengths : ∀ a ∈ s.answers, a.challenge.length = CHALLENGE_LEN

theorem accepted_subset_step (l : Life) (e : Device.Event) :
    l.accepted ⊆ (l.step aead e).accepted := by
  cases hopened : Channel.opened aead l e with
  | none => rw [accepted_of_opened_none hopened]; exact List.Subset.refl _
  | some x =>
      cases e with
      | write pl script =>
          obtain ⟨-, -, -, -, -, a, haccepted, -⟩ := opened_write hopened
          rw [haccepted]
          exact List.subset_append_left _ _
      | _ => exact absurd hopened (by simp [Channel.opened])

theorem Asked.step {before : Inquiry} (h : Asked before s) {act : Inquiry.Act}
    (hsound : s.Sound aead act) : Asked before (s.step aead act) := by
  match act with
  | .device e =>
      exact
        { replay := h.replay.step e hsound.2 (h.synced.markSaved h.replay.world e)
          synced := h.synced.step hsound.1
          kept := List.Subset.trans h.kept (accepted_subset_step _ _)
          answers := h.answers
          counters := h.counters
          lengths := h.lengths }
  | .challenge data script =>
      -- an answer is made at the position the device has reached, which is past all it
      -- accepted before
      have hanswered : ∀ a ∈ Inquiry.answer aead s.life data script,
          (∀ b ∈ before.life.accepted, b.position ≤ a.position) ∧
            a.counter = a.position % 2 ^ 32 := by
        intro a ha
        obtain ⟨st, hst, rfl⟩ := eq_of_answer ha
        refine ⟨fun b hb => h.replay.world.reached st hst b (h.kept hb), ?_⟩
        exact (h.replay.world.live st hst).counter
      exact
        { replay := replayInv_challenge h.replay data script
          synced := by
            rw [Inquiry.step, rest_world]
            exact writeSynced_challenge h.synced data script
          kept := by
            rw [Inquiry.step, rest_accepted]
            exact h.kept
          answers := by
            intro a ha
            rcases List.mem_append.mp ha with hold | hnew
            · exact h.answers a hold
            · exact Or.inr (hanswered a (Option.mem_toList.mp hnew)).1
          counters := by
            intro a ha
            rcases List.mem_append.mp ha with hold | hnew
            · exact h.counters a hold
            · exact (hanswered a (Option.mem_toList.mp hnew)).2
          lengths := by
            intro a ha
            rcases List.mem_append.mp ha with hold | hnew
            · exact h.lengths a hold
            · exact length_of_answer (Option.mem_toList.mp hnew) }

theorem Asked.run {before : Inquiry} {acts : List Inquiry.Act} (h : Asked before s)
    (hsound : Runs.Along (Inquiry.step aead) (Inquiry.Sound aead) s acts) :
    Asked before (Runs.run (Inquiry.step aead) s acts) :=
  Runs.run_invariant (fun _ _ hinv hact => hinv.step hact) h hsound

/-- Putting a question forgets how the device came to where it is. -/
theorem Asked.now {before : Inquiry} (h : Asked before s) : Asked s s where
  replay := h.replay
  synced := h.synced
  kept := List.Subset.refl _
  answers := fun _ ha => Or.inl ha
  counters := h.counters
  lengths := h.lengths

theorem Asked.begin (file : Option MarksFile) :
    Asked ⟨Life.powerOn file, []⟩ ⟨Life.powerOn file, []⟩ where
  replay := ReplayInv.powerOn file
  synced := by simp [WriteSynced, Life.powerOn, World.powerOn]
  kept := List.Subset.refl _
  answers := by simp
  counters := by simp
  lengths := by simp

/-- What is adopted is one past the counter of an opened report that repeats the challenge. -/
theorem of_adoptCounter {key : Bytes} {address : List Char} {c c' : Counters} {resumed : ℤ}
    {report challenge : Bytes}
    (h : adoptCounter aead key address c report challenge = .ok (some resumed, c')) :
    ∃ plaintext, openRead aead report key address = .ok (some plaintext) ∧
      challenge <+: plaintext ∧
      resumed = ((LittleEndian.ofLE (plaintext.drop challenge.length) : ℕ) + 1) % 2 ^ 32 ∧
      c.counter < resumed ∧ c'.counter = resumed := by
  unfold adoptCounter openCounterReport at h
  cases hopen : openRead aead report key address with
  | error e => simp [hopen, bind, Except.bind] at h
  | ok opened =>
      cases opened with
      | none => simp [hopen, bind, Except.bind, pure, Except.pure, Counters.adopt] at h
      | some plaintext =>
          simp only [hopen, bind, Except.bind, pure, Except.pure] at h
          by_cases hlength : plaintext.length ≠ challenge.length + COUNTER_LENGTH
          · simp [if_pos hlength, Counters.adopt] at h
          by_cases hprefixed : plaintext.take challenge.length ≠ challenge
          · simp [if_pos hprefixed, Counters.adopt] at h
          simp only [if_neg hlength, if_neg hprefixed, Counters.adopt, Except.ok.injEq] at h
          push Not at hprefixed
          split at h
          · simp at h
          · rename_i hahead
            obtain ⟨hresumed, rfl⟩ := Prod.mk.inj h
            obtain rfl := Option.some.inj hresumed
            refine ⟨plaintext, rfl, ?_, rfl, by omega, rfl⟩
            rw [List.prefix_iff_eq_take]
            exact hprefixed.symm

/-- Whatever the carrier answers with, a report that is adopted is one the device made after the
question was put, and the counter resumed is one past where it stood then: past everything it had
accepted before. -/
theorem adopted_report_is_current (aead : Aead) (file : Option MarksFile)
    (before after : List Inquiry.Act) (key : Bytes) (address : List Char) (c c' : Counters)
    (resumed : ℤ) (report challenge : Bytes)
    (hsound : Runs.Along (Inquiry.step aead) (Inquiry.Sound aead) ⟨Life.powerOn file, []⟩
      (before ++ after))
    (hfresh : ∀ a ∈ (Runs.run (Inquiry.step aead) ⟨Life.powerOn file, []⟩ before).answers,
      a.challenge ≠ challenge)
    (hlength : challenge.length = CHALLENGE_LENGTH)
    (hreadable : ∀ plaintext, openRead aead report key address = .ok (some plaintext) →
      (Runs.run (Inquiry.step aead) ⟨Life.powerOn file, []⟩ (before ++ after)).Readable
        challenge plaintext)
    (hadopt : adoptCounter aead key address c report challenge = .ok (some resumed, c')) :
    let asked := Runs.run (Inquiry.step aead) ⟨Life.powerOn file, []⟩ before
    let answered := Runs.run (Inquiry.step aead) asked after
    ∃ a ∈ answered.answers, a ∉ asked.answers ∧ a.challenge = challenge ∧
      resumed = ((a.position % 2 ^ 32 : ℕ) + 1) % 2 ^ 32 ∧
      (∀ b ∈ asked.life.accepted, b.position ≤ a.position) ∧
      c.counter < c'.counter ∧ c'.counter = resumed := by
  intro asked answered
  rw [Runs.run_append] at hreadable
  obtain ⟨hbefore, hafter⟩ := Runs.along_append.mp hsound
  have hasked : Asked asked answered := ((Asked.begin file).run hbefore).now.run hafter
  obtain ⟨plaintext, hopen, hprefixed, hresumed, hahead, hcounter⟩ := of_adoptCounter hadopt
  rcases hreadable plaintext hopen with ⟨a, ha, rfl⟩ | hforeign
  swap
  · exact absurd hprefixed hforeign
  obtain ⟨rest, hrest⟩ := hprefixed
  obtain ⟨hsame, rfl⟩ := List.append_inj hrest (hlength.trans (hasked.lengths a ha).symm)
  have hread : LittleEndian.ofLE (counterBytes a.counter) = a.position % 2 ^ 32 := by
    rw [counterBytes_eq_toLE, hasked.counters a ha]
    exact LittleEndian.ofLE_toLE (Nat.mod_lt _ (by norm_num))
  have hnew : a ∉ asked.answers := fun hold => hfresh a hold hsame.symm
  refine ⟨a, ha, hnew, hsame.symm, ?_, ?_, hcounter ▸ hahead, hcounter⟩
  · rw [hresumed, ← hrest, List.drop_left, hread]
  · exact (hasked.answers a ha).resolve_left hnew

/-- A question of old, a write, and the question whose answer is adopted. -/
theorem adopted_report_is_current_sample :
    let before : List Inquiry.Act := [.device (.setup sampleOpts []),
      .challenge [8, 7, 6, 5, 4, 3, 2, 1] [], .device (.write (sampleFrame 6) [])]
    let asked := Runs.run (Inquiry.step sampleCcm) ⟨Life.powerOn none, []⟩ before
    let answered := Runs.run (Inquiry.step sampleCcm) asked [.challenge [1, 2, 3, 4, 5, 6, 7, 8] []]
    ∃ a ∈ answered.answers, a ∉ asked.answers ∧ a.challenge = [1, 2, 3, 4, 5, 6, 7, 8] ∧
      (7 : ℤ) = ((a.position % 2 ^ 32 : ℕ) + 1) % 2 ^ 32 := by
  intro before asked answered
  have hopen : openRead sampleCcm (sealedWith sampleCcm sampleOpts.key sampleOpts.mac
      ([1, 2, 3, 4, 5, 6, 7, 8] ++ counterBytes 6) READ_INFO 2) sampleOpts.key
      (Hex.joined .upper ':' sampleOpts.mac) =
      .ok (some ([1, 2, 3, 4, 5, 6, 7, 8] ++ counterBytes 6)) := by decide +kernel
  obtain ⟨a, ha, hnew, hsame, hresumed, -⟩ :=
    adopted_report_is_current sampleCcm none before [.challenge [1, 2, 3, 4, 5, 6, 7, 8] []]
      sampleOpts.key (Hex.joined .upper ':' sampleOpts.mac) ⟨2, 2, []⟩ ⟨7, 71, [71]⟩ 7
      (sealedWith sampleCcm sampleOpts.key sampleOpts.mac
        ([1, 2, 3, 4, 5, 6, 7, 8] ++ counterBytes 6) READ_INFO 2) [1, 2, 3, 4, 5, 6, 7, 8]
      (by decide +kernel) (by decide +kernel) rfl (fun plaintext hplaintext => by
        obtain rfl := Option.some.inj (Except.ok.inj (hopen.symm.trans hplaintext))
        exact Or.inl ⟨⟨[1, 2, 3, 4, 5, 6, 7, 8], 6, 6⟩, by decide +kernel, rfl⟩)
      (by decide +kernel)
  exact ⟨a, ha, hnew, hsame, hresumed⟩

end BTHomeWritable.Agreement
