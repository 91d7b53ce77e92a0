import BTHomeWritable.Device.Effects
import BTHomeWritable.Receiver.Frames

/-!
# Seal and open, one implementation against the other

Both sides frame a sealed object as `ciphertext || counter u32 LE || tag` under
a nonce that names the direction.  What one seals the other opens: the device's
advertisements, reads and counter reports on the receiver, the receiver's
writes on the device, and nothing in a direction it was not sealed for.

* `nonceFor_inj`: a nonce determines the address, the direction and the counter.
* `sealedWith` is the frame, on both sides (`sealUnder_eq_sealedWith`,
  `wp_sealUnder_frame`), and `openUnder_sealedWith` and `openWrite_sealedWith` open
  it.
* A frame opened in another direction is one under another nonce, which an ideal
  cipher refuses (`decrypt_other_direction`); what is put before it is part of the
  ciphertext and changes nothing.

`SealAgreement` lists what the two owe each other and `seal_open_agree` proves it
for every key, address, counter and plaintext.
-/

namespace BTHomeWritable.Agreement

open Statements Device

variable {aead : Aead} {key mac pt : Bytes} {info : UInt8} {counter : ℕ}

/-! ## Nonces -/

@[simp] theorem length_nonceFor (hmac : mac.length = 6) :
    (nonceFor mac info counter).length = 13 := by
  simp [nonceFor, hmac]

/-- Address, direction and counter stand at fixed places of the nonce. -/
theorem nonceFor_inj {mac' : Bytes} {info' : UInt8} {counter' : ℕ} (hmac : mac.length = 6)
    (hmac' : mac'.length = 6) (hcounter : counter < 4294967296) (hcounter' : counter' < 4294967296)
    (h : nonceFor mac info counter = nonceFor mac' info' counter') :
    mac = mac' ∧ info = info' ∧ counter = counter' := by
  unfold nonceFor at h
  rw [List.append_assoc, List.append_assoc] at h
  obtain ⟨hmacs, htail⟩ := List.append_inj h (hmac.trans hmac'.symm)
  simp only [List.cons_append, List.nil_append, List.cons.injEq, true_and] at htail
  obtain ⟨hinfo, hbytes⟩ := htail
  rw [counterBytes_eq_toLE, counterBytes_eq_toLE] at hbytes
  exact ⟨hmacs, hinfo, LittleEndian.toLE_inj (by omega) (by omega) hbytes⟩

theorem nonce_eq_nonceFor (letters : Hex.Case) {sep : Char} (hsep : sep = ':' ∨ sep = '-')
    (hcounter : counter < 4294967296) :
    Receiver.nonce (Hex.joined letters sep mac) info counter =
      .ok (nonceFor mac info counter) := by
  unfold Receiver.nonce
  rw [Receiver.macBytes_text letters hsep, Receiver.toBytes_natCast hcounter]
  show Except.ok (mac ++ [0xD2, 0xFC, info] ++ LittleEndian.toLE 4 counter) = _
  rw [nonceFor, counterBytes_eq_toLE]

/-! ## Frames -/

theorem sealedWith_eq (hcorrect : aead.Correct 4) :
    sealedWith aead key mac pt info counter =
      (aead.encrypt key (nonceFor mac info counter) pt).1 ++ LittleEndian.toLE 4 counter ++
        (aead.encrypt key (nonceFor mac info counter) pt).2 := by
  have htag : (aead.encrypt key (nonceFor mac info counter) pt).2.length ≤ MIC_LEN :=
    (hcorrect.tag_length _ _ _).le
  simp only [sealedWith, counterBytes_eq_toLE, List.take_of_length_le htag]

theorem ciphertext_ne_nil (hcorrect : aead.Correct 4) (hpt : pt ≠ []) (key nonce : Bytes) :
    (aead.encrypt key nonce pt).1 ≠ [] := by
  intro hnil
  have hlength := hcorrect.cipher_length key nonce pt
  rw [hnil] at hlength
  exact hpt (List.length_eq_zero_iff.mp hlength.symm)

/-- The receiver's `seal` and the device's frame alike. -/
theorem sealUnder_eq_sealedWith (hcorrect : aead.Correct 4) (hcounter : counter < 4294967296) :
    Receiver.sealUnder aead pt key (Hex.joined .upper ':' mac) info counter =
      .ok (sealedWith aead key mac pt info counter) := by
  have htag := hcorrect.tag_length key (nonceFor mac info counter) pt
  unfold Receiver.sealUnder
  rw [nonce_eq_nonceFor .upper (Or.inl rfl) hcounter, Receiver.toBytes_natCast hcounter]
  show Except.ok _ = _
  have hlength : (Receiver.aesccmEncrypt aead key (nonceFor mac info counter) pt).length -
      Receiver.MIC_LENGTH = (aead.encrypt key (nonceFor mac info counter) pt).1.length := by
    simp [Receiver.aesccmEncrypt, Receiver.MIC_LENGTH, htag]
  rw [sealedWith_eq hcorrect, hlength]
  simp [Receiver.aesccmEncrypt]

theorem openUnder_frame {ct tag : Bytes} {info' : UInt8} (hct : ct ≠ []) (htag : tag.length = 4)
    (hcounter : counter < 4294967296) :
    Receiver.openUnder aead (ct ++ LittleEndian.toLE 4 counter ++ tag) key
        (Hex.joined .upper ':' mac) info' =
      .ok (aead.decrypt key (nonceFor mac info' counter) ct tag) := by
  unfold Receiver.openUnder
  rw [Receiver.splitSealed_append hct hcounter htag]
  show (do
    let n ← Receiver.nonce (Hex.joined .upper ':' mac) info' counter
    pure (Receiver.aesccmDecrypt aead key n (ct ++ tag))) = _
  rw [nonce_eq_nonceFor .upper (Or.inl rfl) hcounter]
  show Except.ok _ = _
  have hlength : (ct ++ tag).length - Receiver.MIC_LENGTH = ct.length := by
    simp [Receiver.MIC_LENGTH, htag]
  simp only [Receiver.aesccmDecrypt, hlength, List.take_left, List.drop_left]

theorem openUnder_sealedWith (hcorrect : aead.Correct 4) (hpt : pt ≠ [])
    (hcounter : counter < 4294967296) :
    Receiver.openUnder aead (sealedWith aead key mac pt info counter) key
      (Hex.joined .upper ':' mac) info = .ok (some pt) := by
  rw [sealedWith_eq hcorrect, openUnder_frame (ciphertext_ne_nil hcorrect hpt _ _)
    (hcorrect.tag_length _ _ _) hcounter, hcorrect.decrypt_encrypt]

theorem splitWrite_sealedWith (hcorrect : aead.Correct 4) (hcounter : counter < 4294967296) :
    splitWrite (sealedWith aead key mac pt info counter) =
      { counter := counter
        ct := (aead.encrypt key (nonceFor mac info counter) pt).1
        mic := (aead.encrypt key (nonceFor mac info counter) pt).2 } := by
  rw [sealedWith_eq hcorrect, ← counterBytes_eq_toLE]
  exact splitWrite_append hcounter (hcorrect.tag_length _ _ _)

theorem length_sealedWith (hcorrect : aead.Correct 4) :
    (sealedWith aead key mac pt info counter).length = pt.length + ENC_OVERHEAD := by
  rw [sealedWith_eq hcorrect]
  simp [hcorrect.cipher_length, hcorrect.tag_length, ENC_OVERHEAD, MIC_LEN]

/-! ## What the device's programs return -/

variable {w : World} {st : St}

variable (aead pt info) in
/-- A frame of `seal` is the framing of the counter it found. -/
theorem wp_sealUnder_frame (hst : w.st = some st) :
    wp (fun _ => True) (Device.sealUnder aead pt info)
      (fun frame _ => frame = sealedWith aead st.key st.mac pt info st.advCounter)
      (fun _ _ => True) (fun _ => True) w := by
  unfold Device.sealUnder withSt
  refine wp_bind (wp_read ?_)
  simp only [hst]
  refine wp_bind (wp_stmt ?_ trivial)
  refine wp_bind (wp_mono (wp_trivial _) ?_ (fun _ _ _ => trivial) (fun _ _ => trivial))
  intro _ _ _
  exact wp_bind (wp_stmt (wp_bind (wp_call (wp_pure rfl) (fun _ => trivial) trivial)) trivial)

variable (aead) in
theorem wp_counterCharacteristic {challenge : Bytes} (hst : w.st = some st)
    (hlength : challenge.length = CHALLENGE_LEN) :
    wp (fun _ => True) (counterCharacteristic aead challenge)
      (fun answer _ => answer = some (sealedWith aead st.key st.mac
        (challenge ++ counterBytes st.writeCounter) READ_INFO st.advCounter))
      (fun _ _ => True) (fun _ => True) w := by
  unfold counterCharacteristic withSt
  rw [if_neg (by simp [hlength])]
  refine wp_bind (wp_read ?_)
  simp only [hst]
  refine wp_bind (wp_mono (wp_sealUnder_frame _ _ _ hst) ?_ (fun _ _ _ => trivial)
    (fun _ _ => trivial))
  rintro frame w' rfl
  exact wp_pure rfl

/-- Nothing in the way, a write that passes the checks is returned opened. -/
theorem openWrite_undisturbed (pl : Bytes) (hst : w.st = some st) (hpass : passes aead st pl) :
    (openWrite aead pl w []).value? =
      some (aead.decrypt st.key (nonceFor st.mac WRITE_INFO (splitWrite pl).counter)
        (splitWrite pl).ct (splitWrite pl).mic) := by
  obtain ⟨pt, hpt⟩ := Option.isSome_iff_exists.mp (isSome_decrypt_of_passes hpass)
  have hahead := ahead_of_passes hpass
  have hlong : ¬ pl.length ≤ ENC_OVERHEAD := by
    simp only [passes, Bool.and_eq_true, decide_eq_true_eq] at hpass
    omega
  have hnote : ∃ w', noteWriteCounter (splitWrite pl).counter w [] = .done () w' [] := by
    unfold noteWriteCounter
    rw [withSt_some _ _ hst, Prog.bind_done (Prog.stmt_nil _ _)]
    split
    · exact ⟨_, Prog.bind_done (Prog.stmt_nil _ _)⟩
    · exact ⟨_, rfl⟩
  obtain ⟨w', hnote⟩ := hnote
  unfold openWrite
  rw [withSt_some _ _ hst]
  simp only [if_neg hlong, hahead, Bool.not_true, Bool.false_eq_true, if_false]
  rw [Prog.bind_done (Prog.call_nil _ _ _ _)]
  simp only [hpt, id_eq]
  rw [Prog.bind_done hnote, Prog.bind_done (Prog.stmt_nil _ _)]
  rfl

/-- A write sealed under the device's key, ahead of its counter, comes back as sealed. -/
theorem openWrite_sealedWith (hcorrect : aead.Correct 4) (hpt : pt ≠ [])
    (hcounter : counter < 4294967296) (hst : w.st = some st)
    (hahead : counterIsAhead counter st.writeCounter) :
    (openWrite aead (sealedWith aead st.key st.mac pt WRITE_INFO counter) w []).value? =
      some (some pt) := by
  have hsplit : splitWrite (sealedWith aead st.key st.mac pt WRITE_INFO counter) =
      { counter := counter
        ct := (aead.encrypt st.key (nonceFor st.mac WRITE_INFO counter) pt).1
        mic := (aead.encrypt st.key (nonceFor st.mac WRITE_INFO counter) pt).2 } :=
    splitWrite_sealedWith hcorrect hcounter
  have hpos : 0 < pt.length := List.length_pos_iff.mpr hpt
  have hpass : passes aead st (sealedWith aead st.key st.mac pt WRITE_INFO counter) := by
    simp only [passes, hsplit, hcorrect.decrypt_encrypt, length_sealedWith hcorrect, hahead,
      Option.isSome_some, Bool.and_true, decide_eq_true_eq]
    omega
  have hopen := openWrite_undisturbed _ hst hpass
  rwa [hsplit, hcorrect.decrypt_encrypt] at hopen

/-! ## Advertisements -/

theorem isEncrypted_advertising (payload : Bytes) :
    Receiver.isEncrypted (DEV_INFO_ENC :: payload) = true := by
  simp only [Receiver.isEncrypted, decide_eq_true_eq]
  decide

theorem macIncluded_advertising (payload : Bytes) :
    Receiver.macIncluded (DEV_INFO_ENC :: payload) = false := by
  simp only [Receiver.macIncluded, decide_eq_false_iff_not, not_not]
  decide

theorem decryptAdvertising_cons (payload : Bytes) (address : List Char) :
    Receiver.decryptAdvertising aead (DEV_INFO_ENC :: payload) key address =
      Receiver.openUnder aead payload key address DEV_INFO_ENC := by
  simp [Receiver.decryptAdvertising, isEncrypted_advertising, Receiver.objectsAt,
    Receiver.nonceAddress, macIncluded_advertising]

theorem advertisingCounter_sealedWith (hcorrect : aead.Correct 4) (hpt : pt ≠ [])
    (hcounter : counter < 4294967296) :
    Receiver.advertisingCounter (DEV_INFO_ENC :: sealedWith aead key mac pt info counter) =
      some counter := by
  have hct := ciphertext_ne_nil hcorrect hpt key (nonceFor mac info counter)
  have hsplit := Receiver.splitSealed_append hct hcounter
    (hcorrect.tag_length key (nonceFor mac info counter) pt)
  rw [← sealedWith_eq hcorrect] at hsplit
  simp [Receiver.advertisingCounter, isEncrypted_advertising, Receiver.objectsAt,
    macIncluded_advertising, hsplit]

/-! ## The wrong direction -/

variable {Sealed : Bytes → Bytes → Bytes → Prop} {info' : UInt8}

/-- The tag of a frame is good under its own direction alone, whatever is put before the frame. -/
theorem decrypt_other_direction (hideal : aead.Ideal 4 Sealed) (hmac : mac.length = 6)
    (hcounter : counter < 4294967296) (hsealed : Sealed key (nonceFor mac info counter) pt)
    (hinfo : info' ≠ info) (ct : Bytes) :
    aead.decrypt key (nonceFor mac info' counter) ct
      (aead.encrypt key (nonceFor mac info counter) pt).2 = none := by
  refine hideal.rejects ct hsealed ?_
  intro hsame
  have hnonces : nonceFor mac info' counter = nonceFor mac info counter :=
    congrArg Prod.snd hsame
  exact hinfo (nonceFor_inj hmac hmac hcounter hcounter hnonces).2.1

theorem openUnder_other_direction (hideal : aead.Ideal 4 Sealed) (hmac : mac.length = 6)
    (hpt : pt ≠ []) (hcounter : counter < 4294967296)
    (hsealed : Sealed key (nonceFor mac info counter) pt) (hinfo : info' ≠ info) (lead : Bytes) :
    Receiver.openUnder aead (lead ++ sealedWith aead key mac pt info counter) key
      (Hex.joined .upper ':' mac) info' = .ok none := by
  have hcorrect := hideal.toCorrect
  have hct : lead ++ (aead.encrypt key (nonceFor mac info counter) pt).1 ≠ [] :=
    List.append_ne_nil_of_right_ne_nil _ (ciphertext_ne_nil hcorrect hpt _ _)
  rw [sealedWith_eq hcorrect, ← List.append_assoc, ← List.append_assoc,
    openUnder_frame hct (hcorrect.tag_length _ _ _) hcounter,
    decrypt_other_direction hideal hmac hcounter hsealed hinfo]

theorem not_passes_other_direction (hideal : aead.Ideal 4 Sealed) (hmac : st.mac.length = 6)
    (hcounter : counter < 4294967296) (hsealed : Sealed st.key (nonceFor st.mac info counter) pt)
    (hinfo : info ≠ WRITE_INFO) (lead : Bytes) :
    passes aead st (lead ++ sealedWith aead st.key st.mac pt info counter) = false := by
  have hcorrect := hideal.toCorrect
  have hsplit : splitWrite (lead ++ sealedWith aead st.key st.mac pt info counter) =
      { counter := counter
        ct := lead ++ (aead.encrypt st.key (nonceFor st.mac info counter) pt).1
        mic := (aead.encrypt st.key (nonceFor st.mac info counter) pt).2 } := by
    rw [sealedWith_eq hcorrect, ← counterBytes_eq_toLE, ← List.append_assoc, ← List.append_assoc]
    exact splitWrite_append hcounter (hcorrect.tag_length _ _ _)
  simp only [passes, hsplit, decrypt_other_direction hideal hmac hcounter hsealed hinfo.symm,
    Option.isSome_none, Bool.and_false]

/-- What fails the checks is not returned, wherever the program stops. -/
theorem openWrite_value_of_not_passes {pl : Bytes} (hst : w.st = some st)
    (hpass : passes aead st pl = false) (script : List (Fate Fault)) (opened : Bytes) :
    (openWrite aead pl w script).value? ≠ some (some opened) := by
  intro hvalue
  have hp := wp_openWrite (A := fun _ => True) aead pl hst script (by simp)
  cases hrun : openWrite aead pl w script with
  | done result w' rest =>
      rw [hrun] at hp hvalue
      rcases hp.1 with ⟨rfl, -⟩ | ⟨-, hpasses, -⟩
      · simp [Outcome.value?] at hvalue
      · rw [hpass] at hpasses
        exact absurd hpasses (by simp)
  | threw e w' rest => simp [hrun, Outcome.value?] at hvalue
  | cut w' => simp [hrun, Outcome.value?] at hvalue

/-! ## Counter reports -/

theorem openCounterReport_answer (hcorrect : aead.Correct 4) {challenge : Bytes} {last : ℕ}
    (hcounter : counter < 4294967296) (hlast : last < 4294967296) (asked : Bytes) :
    Receiver.openCounterReport aead
        (sealedWith aead key mac (challenge ++ counterBytes last) READ_INFO counter) key
        (Hex.joined .upper ':' mac) asked =
      .ok (if asked = challenge then some last else none) := by
  have hpt : challenge ++ counterBytes last ≠ [] :=
    List.append_ne_nil_of_right_ne_nil _ (by simp [counterBytes])
  have hopen : Receiver.openRead aead
      (sealedWith aead key mac (challenge ++ counterBytes last) READ_INFO counter) key
      (Hex.joined .upper ':' mac) = .ok (some (challenge ++ counterBytes last)) :=
    openUnder_sealedWith hcorrect hpt hcounter
  have hread : LittleEndian.ofLE (counterBytes last) = last := by
    rw [counterBytes_eq_toLE]
    exact LittleEndian.ofLE_toLE hlast
  unfold Receiver.openCounterReport
  rw [hopen]
  -- the length first, then the challenge: a challenge of another length is told by the former
  show (if _ then _ else if _ then _ else _ : Except Receiver.PyError (Option ℕ)) = _
  by_cases hsame : asked = challenge
  · subst hsame
    simp [Receiver.COUNTER_LENGTH, hread, pure, Except.pure]
  · rw [if_neg hsame]
    split
    · rfl
    · rename_i hlength
      rw [if_pos]
      · rfl
      · intro htake
        have hlen : asked.length = challenge.length := by
          simp [Receiver.COUNTER_LENGTH] at hlength
          omega
        rw [hlen, List.take_left] at htake
        exact hsame htake.symm

/-! ## The agreement -/

/-- What the two implementations owe each other, for one key, address, counter and plaintext.
`Sealed` lists what key holders have sealed. -/
structure SealAgreement (aead : Aead) (Sealed : Bytes → Bytes → Bytes → Prop)
    (key mac pt : Bytes) (counter : ℕ) : Prop where
  /-- Both read the six bytes out of the text they hold, in the same order. -/
  address : ∀ kind, Device.macBytes (Hex.joined .lower ':' mac ++ ' ' :: kind) = mac ∧
    Receiver.macBytes (Hex.joined .upper ':' mac) = .ok mac
  nonces : ∀ info, Receiver.nonce (Hex.joined .upper ':' mac) info counter =
      .ok (nonceFor mac info counter) ∧ (nonceFor mac info counter).length = 13
  nonces_differ : ∀ mac' info info' counter', mac'.length = 6 → counter' < 2 ^ 32 →
    nonceFor mac info counter = nonceFor mac' info' counter' →
      mac = mac' ∧ info = info' ∧ counter = counter'
  /-- What the device's `seal` returns, in whatever state it draws the counter. -/
  seal_returns : ∀ w st info script frame w' rest, w.st = some st → st.key = key → st.mac = mac →
    st.advCounter = counter → Device.sealUnder aead pt info w script = .done frame w' rest →
      frame = sealedWith aead key mac pt info counter
  read_opens : Receiver.openRead aead (sealedWith aead key mac pt READ_INFO counter) key
    (Hex.joined .upper ':' mac) = .ok (some pt)
  advertisement_opens : ∀ info, Receiver.decryptAdvertising aead
    (sealedAdvertising aead key mac (info :: pt) counter) key (Hex.joined .upper ':' mac) =
      .ok (some pt)
  advertisement_counter : ∀ info, Receiver.advertisingCounter
    (sealedAdvertising aead key mac (info :: pt) counter) = some counter
  write_splits : ∃ frame, Receiver.sealWrite aead pt key (Hex.joined .upper ':' mac) counter =
      .ok frame ∧
    splitWrite frame =
      { counter := counter
        ct := (aead.encrypt key (nonceFor mac WRITE_INFO counter) pt).1
        mic := (aead.encrypt key (nonceFor mac WRITE_INFO counter) pt).2 } ∧
    ∀ w st, w.st = some st → st.key = key → st.mac = mac →
      counterIsAhead counter st.writeCounter →
        (openWrite aead frame w []).value? = some (some pt)
  /-- Opened in a direction it was not sealed for, with anything put before it, a frame is
  refused. -/
  directions : ∀ info ∈ [DEV_INFO_ENC, WRITE_INFO, READ_INFO],
    Sealed key (nonceFor mac info counter) pt → ∀ lead : Bytes,
    (info ≠ DEV_INFO_ENC → Receiver.decryptAdvertising aead
      (DEV_INFO_ENC :: (lead ++ sealedWith aead key mac pt info counter)) key
      (Hex.joined .upper ':' mac) = .ok none) ∧
    (info ≠ READ_INFO → Receiver.openRead aead
      (lead ++ sealedWith aead key mac pt info counter) key (Hex.joined .upper ':' mac) =
        .ok none) ∧
    (info ≠ WRITE_INFO → ∀ w st script opened, w.st = some st → st.key = key → st.mac = mac →
      (openWrite aead (lead ++ sealedWith aead key mac pt info counter) w script).value? ≠
        some (some opened))
  report : ∀ challenge asked w st script answer w' rest, challenge.length = CHALLENGE_LEN →
    w.st = some st → st.key = key → st.mac = mac → st.advCounter = counter →
    st.writeCounter < 2 ^ 32 →
    counterCharacteristic aead challenge w script = .done (some answer) w' rest →
      Receiver.openCounterReport aead answer key (Hex.joined .upper ':' mac) asked =
        .ok (if asked = challenge then some st.writeCounter else none)

theorem seal_open_agree (aead : Aead) (Sealed : Bytes → Bytes → Bytes → Prop)
    (hideal : aead.Ideal 4 Sealed) (key mac pt : Bytes) (counter : ℕ)
    (hmac : mac.length = 6) (hpt : pt ≠ []) (hcounter : counter < 2 ^ 32) :
    SealAgreement aead Sealed key mac pt counter := by
  have hcorrect : aead.Correct 4 := hideal.toCorrect
  norm_num at hcounter
  refine
    { address := fun kind => ⟨macBytes_text .lower kind hmac,
        Receiver.macBytes_text .upper (Or.inl rfl) mac⟩
      nonces := fun info => ⟨nonce_eq_nonceFor .upper (Or.inl rfl) hcounter,
        length_nonceFor hmac⟩
      nonces_differ := fun mac' info info' counter' hmac' hcounter' hsame =>
        nonceFor_inj hmac hmac' hcounter (by norm_num at hcounter'; exact hcounter') hsame
      seal_returns := ?_
      read_opens := openUnder_sealedWith hcorrect hpt hcounter
      advertisement_opens := ?_
      advertisement_counter := fun info => advertisingCounter_sealedWith hcorrect hpt hcounter
      write_splits := ?_
      directions := ?_
      report := ?_ }
  · rintro w st info script frame w' rest hst rfl rfl rfl hrun
    have hp := wp_sealUnder_frame aead pt info hst script (by simp)
    rw [hrun] at hp
    exact hp.1
  · intro info
    rw [sealedAdvertising, decryptAdvertising_cons]
    exact openUnder_sealedWith hcorrect hpt hcounter
  · refine ⟨_, sealUnder_eq_sealedWith hcorrect hcounter,
      splitWrite_sealedWith hcorrect hcounter, ?_⟩
    rintro w st hst rfl rfl hahead
    exact openWrite_sealedWith hcorrect hpt hcounter hst hahead
  · intro info _ hsealed lead
    refine ⟨fun hinfo => ?_, fun hinfo => ?_, ?_⟩
    · rw [decryptAdvertising_cons]
      exact openUnder_other_direction hideal hmac hpt hcounter hsealed hinfo.symm lead
    · exact openUnder_other_direction hideal hmac hpt hcounter hsealed hinfo.symm lead
    · rintro hinfo w st script opened hst rfl rfl
      exact openWrite_value_of_not_passes hst
        (not_passes_other_direction hideal hmac hcounter hsealed hinfo lead) script opened
  · rintro challenge asked w st script answer w' rest hlength hst rfl rfl rfl hlast hrun
    have hp := wp_counterCharacteristic aead hst hlength script (by simp)
    rw [hrun] at hp
    obtain rfl := Option.some.inj hp.1
    exact openCounterReport_answer hcorrect hcounter (by norm_num at hlast; exact hlast) asked

/-- A counter above 2^31 and a plaintext of one byte, sealed as a read. -/
theorem seal_open_agree_sample :
    SealAgreement
      (Aead.tagging (List.replicate 16 0x2B) (nonceFor [1, 2, 3, 4, 5, 6] READ_INFO 0xFEDCBA98))
      (fun key nonce _ => (key, nonce) =
        (List.replicate 16 0x2B, nonceFor [1, 2, 3, 4, 5, 6] READ_INFO 0xFEDCBA98))
      (List.replicate 16 0x2B) [1, 2, 3, 4, 5, 6] [0x0F] 0xFEDCBA98 :=
  seal_open_agree _ _ (Aead.tagging_ideal _ _) _ _ _ _ (by decide) (by decide) (by decide)

end BTHomeWritable.Agreement
