import BTHomeWritable.Receiver.Coordinator

/-!
# Which sealed advertisements are absorbed

A sealed payload is absorbed when it passes `_counter_increased` and opens.  The
check compares with the counter of the last payload absorbed, but only while
`bindkey_verified` is true, and a payload that does not authenticate takes that
away.  So a replay gets through exactly where the payload tried before it
failed.

`plaintext_cases` takes a payload that the check has a say on (`Checked`) through
`_plaintext`: it is absorbed, or it fails, or it is passed over and nothing moves.
`absorbed_ascend_iff` is the induction over a sequence of such payloads, from any
state of a coordinator with a key, with the last counter absorbed put before the
rest; `replays_never_absorbed` is the case of a coordinator at its start.
`replay_absorbed_after_forgery` is a sequence of three.
-/

namespace BTHomeWritable.Receiver.Coordinator

variable (aead : Aead) (table : ObjectTable) (address : List Char)

/-- The payload opens under the key. -/
def Authentic (bindkey payload : Bytes) : Prop :=
  ∃ objects, decryptAdvertising aead payload bindkey address = .ok (some objects)

/-- The counter of a sealed payload, if the payload is absorbed. -/
def absorbs (s : Coordinator) (payload : Bytes) : Option ℕ :=
  match (s.plaintext aead address payload).2 with
  | .ok (some _) => advertisingCounter payload
  | _ => none

/-- The counters absorbed over a sequence of payloads, in order. -/
def absorbedCounters : Coordinator → List Bytes → List ℕ
  | _, [] => []
  | s, payload :: rest =>
      (s.absorbs aead address payload).toList ++
        absorbedCounters (s.handleAdvertisement aead table address payload) rest

/-- The payload carries a counter on which the replay check has a say. -/
def Checked (payload : Bytes) : Prop :=
  ∃ counter, advertisingCounter payload = some counter ∧ COUNTER_RESTART_CEILING ≤ counter

/-- An authentic payload behind the last one absorbed finds the key verified. -/
def ReplayMeetsVerified (s : Coordinator) (payload : Bytes) : Prop :=
  (∃ bindkey ∈ s.bindkey, Authentic aead address bindkey payload) →
    (∃ counter, advertisingCounter payload = some counter ∧ counter < s.encryptionCounter) →
      s.bindkeyVerified = some true

variable {aead table address} {s : Coordinator} {bindkey payload : Bytes} {counter : ℕ}

theorem isEncrypted_of_advertisingCounter (h : advertisingCounter payload = some counter) :
    isEncrypted payload = true := by
  unfold advertisingCounter at h
  by_contra hclear
  rw [Bool.not_eq_true] at hclear
  simp [hclear] at h

/-- `_plaintext` of a sealed payload under a key. -/
theorem plaintext_sealed (hkey : s.bindkey = some bindkey) (hsealed : isEncrypted payload = true) :
    s.plaintext aead address payload =
      if !s.counterIncreased payload then ({ s with advertisesEncrypted := some true }, .ok none)
      else
        match decryptAdvertising aead payload bindkey address with
        | .error e => ({ s with advertisesEncrypted := some true }, .error e)
        | .ok none =>
            ({ s with advertisesEncrypted := some true, bindkeyVerified := some false }, .ok none)
        | .ok (some objects) =>
            ({ s with
                advertisesEncrypted := some true
                bindkeyVerified := some true
                encryptionCounter := (advertisingCounter payload).getD s.encryptionCounter },
              .ok (some objects)) := by
  unfold plaintext
  simp only [hsealed, Bool.not_true, Bool.false_eq_true, if_false]
  split
  · rename_i hnone
    exact absurd (hnone.symm.trans hkey) (by simp)
  · rename_i key hsome
    obtain rfl : key = bindkey := Option.some.inj (hsome.symm.trans hkey)
    rfl

theorem counterIncreased_iff (hcounter : advertisingCounter payload = some counter)
    (hceiling : COUNTER_RESTART_CEILING ≤ counter) :
    s.counterIncreased payload = true ↔
      (s.bindkeyVerified = some true → s.encryptionCounter ≤ counter) := by
  simp only [counterIncreased, hcounter, Bool.or_eq_true, decide_eq_true_eq]
  by_cases hverified : s.bindkeyVerified = some true
  · simp only [hverified, ne_eq, not_true_eq_false, false_or, forall_const]
    omega
  · simp [hverified]

variable (aead address) in
/-- What a payload does to the fields of the replay check: the check drops it, it is absorbed, or
it does not open. -/
theorem plaintext_cases (hkey : s.bindkey = some bindkey)
    (hcounter : advertisingCounter payload = some counter)
    (hceiling : COUNTER_RESTART_CEILING ≤ counter) :
    let s' := (s.plaintext aead address payload).1
    s'.bindkey = some bindkey ∧
      ((s.bindkeyVerified = some true ∧ counter < s.encryptionCounter ∧
          s.absorbs aead address payload = none ∧ s'.encryptionCounter = s.encryptionCounter) ∨
        ((s.bindkeyVerified = some true → s.encryptionCounter ≤ counter) ∧
          Authentic aead address bindkey payload ∧
          s.absorbs aead address payload = some counter ∧ s'.encryptionCounter = counter) ∨
        (¬ Authentic aead address bindkey payload ∧ s.absorbs aead address payload = none ∧
          s'.encryptionCounter = s.encryptionCounter)) := by
  have heq : s.plaintext aead address payload = _ :=
    plaintext_sealed hkey (isEncrypted_of_advertisingCounter hcounter)
  have hpass := counterIncreased_iff (s := s) hcounter hceiling
  rw [absorbs, heq]
  cases hincreased : s.counterIncreased payload with
  | false =>
      rw [hincreased] at hpass
      -- `_counter_increased` says no only to a verified key, and to a counter below the
      -- last
      have hdropped : ¬ (s.bindkeyVerified = some true → s.encryptionCounter ≤ counter) :=
        fun h => absurd (hpass.mpr h) (by simp)
      push Not at hdropped
      exact ⟨hkey, Or.inl ⟨hdropped.1, hdropped.2, rfl, rfl⟩⟩
  | true =>
      have hkept := hpass.mp hincreased
      simp only [Bool.not_true, Bool.false_eq_true, if_false]
      cases hopen : decryptAdvertising aead payload bindkey address with
      | error e =>
          have hnot : ¬ Authentic aead address bindkey payload := by
            rintro ⟨objects, hobjects⟩
            exact absurd (hopen.symm.trans hobjects) (by simp)
          exact ⟨hkey, Or.inr (Or.inr ⟨hnot, rfl, rfl⟩)⟩
      | ok opened =>
          cases opened with
          | none =>
              have hnot : ¬ Authentic aead address bindkey payload := by
                rintro ⟨objects, hobjects⟩
                exact absurd (hopen.symm.trans hobjects) (by simp)
              exact ⟨hkey, Or.inr (Or.inr ⟨hnot, rfl, rfl⟩)⟩
          | some objects =>
              refine ⟨hkey, Or.inr (Or.inl ⟨hkept, ⟨objects, hopen⟩, hcounter, ?_⟩)⟩
              simp [hcounter]

variable (aead table address) in
/-- Past `_plaintext` an advertisement does not touch the replay check. -/
theorem handleAdvertisement_check (hcounter : advertisingCounter payload = some counter) :
    let s' := s.handleAdvertisement aead table address payload
    s'.bindkey = (s.plaintext aead address payload).1.bindkey ∧
      s'.bindkeyVerified = (s.plaintext aead address payload).1.bindkeyVerified ∧
      s'.encryptionCounter = (s.plaintext aead address payload).1.encryptionCounter := by
  have hsealed := isEncrypted_of_advertisingCounter hcounter
  have hne : payload.isEmpty = false := by
    cases payload with
    | nil => simp [isEncrypted] at hsealed
    | cons _ _ => rfl
  unfold handleAdvertisement
  simp only [hne, Bool.false_eq_true, if_false]
  split
  · rename_i hplain
    simp [hplain]
  · rename_i hplain
    simp [hplain]
  · rename_i hplain
    simp only [hplain]
    split
    · exact ⟨rfl, rfl, rfl⟩
    · exact ⟨rfl, rfl, rfl⟩
    · rename_i declaration _
      cases hrevision : declaration.settingsRevision <;> simp [noticeRevision]

/-- From any state on: nothing behind the last counter absorbed is absorbed exactly if every
replay meets a verified key. -/
theorem absorbed_ascend_iff {payloads : List Bytes} (hkey : s.bindkey = some bindkey)
    (hchecked : ∀ payload ∈ payloads, Checked payload) :
    (s.encryptionCounter :: absorbedCounters aead table address s payloads).Pairwise (· ≤ ·) ↔
      Runs.Along (handleAdvertisement aead table address) (ReplayMeetsVerified aead address) s
        payloads := by
  induction payloads generalizing s with
  | nil => simp [absorbedCounters, Runs.Along]
  | cons payload rest ih =>
      obtain ⟨counter, hcounter, hceiling⟩ := hchecked payload (by simp)
      have hrest : ∀ payload' ∈ rest, Checked payload' :=
        fun payload' hmem => hchecked payload' (List.mem_cons_of_mem _ hmem)
      obtain ⟨hkey', hcases⟩ := plaintext_cases aead address hkey hcounter hceiling
      obtain ⟨hbindkey, -, hencryption⟩ :=
        handleAdvertisement_check aead table address (s := s) hcounter
      have hlater := ih (s := s.handleAdvertisement aead table address payload)
        (hbindkey.trans hkey') hrest
      rw [hencryption] at hlater
      have hmeets : ReplayMeetsVerified aead address s payload ↔
          (Authentic aead address bindkey payload → counter < s.encryptionCounter →
            s.bindkeyVerified = some true) := by
        simp [ReplayMeetsVerified, hkey, hcounter]
      simp only [Runs.Along, absorbedCounters, hmeets, ← hlater]
      rcases hcases with ⟨hverified, -, hnone, hsame⟩ | ⟨hkept, hauthentic, hsome, hmoved⟩ |
        ⟨hnot, hnone, hsame⟩
      · simp [hnone, hsame, hverified]
      · -- absorbed: it is ahead of the last one just if the condition holds of it
        have hahead : s.encryptionCounter ≤ counter ↔
            (counter < s.encryptionCounter → s.bindkeyVerified = some true) :=
          ⟨fun hle hlt => absurd hle (by omega), fun h => by
            by_contra hlt
            exact hlt (hkept (h (by omega)))⟩
        simp only [hsome, hmoved, hauthentic, forall_const, Option.toList_some, List.cons_append,
          List.nil_append, ← hahead]
        constructor
        · intro hpairs
          exact ⟨List.rel_of_pairwise_cons hpairs (by simp), hpairs.tail⟩
        · rintro ⟨hle, hpairs⟩
          refine List.pairwise_cons.mpr ⟨?_, hpairs⟩
          intro c hc
          rcases List.mem_cons.mp hc with rfl | hc
          · exact hle
          · exact hle.trans (List.rel_of_pairwise_cons hpairs hc)
      · simp [hnone, hsame, hnot]

/-- Once a payload is absorbed none behind it is absorbed later, over every sequence of sealed
payloads in which each replay finds that the payload tried before it opened; and over no other. -/
theorem replays_never_absorbed (aead : Aead) (table : ObjectTable) (address : List Char)
    (bindkey : Bytes) (declaration : Option Declaration) (writeCounter : ℤ)
    (payloads : List Bytes) (hchecked : ∀ payload ∈ payloads, Checked payload) :
    (absorbedCounters aead table address (start (some bindkey) declaration writeCounter)
        payloads).Pairwise (fun earlier later => ¬ later < earlier) ↔
      Runs.Along (handleAdvertisement aead table address) (ReplayMeetsVerified aead address)
        (start (some bindkey) declaration writeCounter) payloads := by
  rw [← absorbed_ascend_iff (s := start (some bindkey) declaration writeCounter) rfl hchecked,
    List.pairwise_cons]
  simp [start]

/-- An advertisement of one object, sealed under `counter` with the tag at hand. -/
def sampleAdvertisement (counter : ℕ) (tag : Bytes) : Bytes :=
  [0x41, 0x01, 0x3D] ++ LittleEndian.toLE 4 counter ++ tag

def sampleStart : Coordinator := start (some (List.replicate 16 0x2B)) none 0

/-- A forgery between two advertisements of the device, and the older of them comes second. -/
theorem replay_absorbed_after_forgery :
    let payloads := [sampleAdvertisement 200 [0, 0, 0, 0], sampleAdvertisement 300 [9, 9, 9, 9],
      sampleAdvertisement 150 [0, 0, 0, 0]]
    payloads.map advertisingCounter = [some 200, some 300, some 150] ∧
      absorbedCounters (Aead.tagging [] []) (fun _ => none) "C1:11:22:33:44:55".toList sampleStart
        payloads = [200, 150] := by
  decide +kernel

/-- Without the forgery the same replay is dropped, and so is a forgery behind the last packet. -/
theorem replays_never_absorbed_sample :
    (absorbedCounters (Aead.tagging [] []) (fun _ => none) "C1:11:22:33:44:55".toList sampleStart
        [sampleAdvertisement 200 [0, 0, 0, 0], sampleAdvertisement 180 [9, 9, 9, 9],
          sampleAdvertisement 150 [0, 0, 0, 0]]).Pairwise
      (fun earlier later => ¬ later < earlier) := by
  refine (replays_never_absorbed _ _ _ _ _ _ _ ?_).mpr ⟨?_, ?_, ?_, trivial⟩
  · intro payload hpayload
    simp only [List.mem_cons, List.not_mem_nil, or_false] at hpayload
    rcases hpayload with rfl | rfl | rfl
    · exact ⟨200, by decide, by decide⟩
    · exact ⟨180, by decide, by decide⟩
    · exact ⟨150, by decide, by decide⟩
  · rintro - ⟨counter, -, hlt⟩
    exact absurd hlt (Nat.not_lt_zero counter)
  · intro _ _
    decide +kernel
  · intro _ _
    decide +kernel

end BTHomeWritable.Receiver.Coordinator
