import BTHomeWritable.Agreement.Seal
import BTHomeWritable.Device.Nonces
import BTHomeWritable.Receiver.Absorbing

/-!
# A device's advertisements, as a receiver hears them

The device draws its counter forward on a circle of 2^32, a stride at a time over
a boot; the receiver takes what it hears for newer if the number is no smaller,
or below a fixed ceiling.  The two agree along one turn of the circle, and over
its end only where the first packet heard past it was sealed under a counter
below the ceiling.

`Hears` is what is left of a sequence when some is missed and some is heard more
than once; order survives it (`Hears.pairwise`).  `takenIn_iff` is one packet: it is
`TakenIn` exactly if the check lets it through.  For two packets of one life that
are less than a turn apart, comparing the counters comes to asking whether a wrap
lies between them (`counter_le_iff_same_turn`), and `along_takenIn_iff` goes along
what is heard.

`heard_packets_taken_in` is the result for every life and every hearing of it, and
`packet_past_the_wrap_refused` a life that crosses the end of the circle.
-/

namespace BTHomeWritable.Agreement

open Device Receiver

/-! ## Hearing -/

/-- Out of what is sent, in order, some is missed and some is heard, once or more often. -/
inductive Hears {α : Type*} : List α → List α → Prop
  | silence : Hears [] []
  | missed {a : α} {sent heard : List α} : Hears sent heard → Hears (a :: sent) heard
  | heard {a : α} {sent heard : List α} : Hears (a :: sent) heard → Hears (a :: sent) (a :: heard)

theorem Hears.subset {α : Type*} {sent heard : List α} (h : Hears sent heard) : heard ⊆ sent := by
  induction h with
  | silence => exact List.Subset.refl _
  | missed _ ih => exact fun b hb => List.mem_cons_of_mem _ (ih hb)
  | heard _ ih => exact List.cons_subset.mpr ⟨List.mem_cons_self .., ih⟩

theorem Hears.refl {α : Type*} (sent : List α) : Hears sent sent := by
  induction sent with
  | nil => exact .silence
  | cons _ _ ih => exact .heard (.missed ih)

/-- What is sent in strict order is heard in order. -/
theorem Hears.pairwise {α : Type*} {R : α → α → Prop} {sent heard : List α} (h : Hears sent heard)
    (hsent : sent.Pairwise R) : heard.Pairwise fun a b => a = b ∨ R a b := by
  induction h with
  | silence => exact List.Pairwise.nil
  | missed _ ih => exact ih hsent.tail
  | @heard a sent heard hrest ih =>
      refine List.pairwise_cons.mpr ⟨?_, ih hsent⟩
      intro b hb
      rcases List.mem_cons.mp (hrest.subset hb) with rfl | hmem
      · exact Or.inl rfl
      · exact Or.inr (List.rel_of_pairwise_cons hsent hmem)

/-! ## Advertisements -/

/-- A packet on the air: the act of sealing, and the service data sealed, past the packet id that
begins every packet. -/
structure Broadcast where
  sealing : Sealing
  body : Bytes
  deriving DecidableEq

namespace Broadcast

def serviceData (b : Broadcast) : Bytes := DEV_INFO_ENC :: PKT_ID :: b.body

/-- What the device hands to the radio. -/
def payload (aead : Aead) (key mac : Bytes) (b : Broadcast) : Bytes :=
  sealedAdvertising aead key mac b.serviceData b.sealing.counter

end Broadcast

/-- The sealed advertisements of a life, in the order they were sent. -/
def advertised (w : World) : List Sealing := w.sealed.filter (·.info = DEV_INFO_ENC)

variable (aead : Aead) (table : ObjectTable) (key mac : Bytes)

def hear (s : Coordinator) (b : Broadcast) : Coordinator :=
  s.handleAdvertisement aead table (Hex.joined .upper ':' mac) (b.payload aead key mac)

/-- The packet passes the replay check, opens, and its counter becomes the one to beat. -/
def TakenIn (s : Coordinator) (b : Broadcast) : Prop :=
  s.counterIncreased (b.payload aead key mac) = true ∧
    s.plaintext aead (Hex.joined .upper ':' mac) (b.payload aead key mac) =
      ({ s with
          advertisesEncrypted := some true
          bindkeyVerified := some true
          encryptionCounter := b.sealing.counter },
        .ok (some (PKT_ID :: b.body)))

/-- No wrap lies between the two, or the later one comes early enough after it. -/
def SameTurnOrEarly (b b' : Broadcast) : Prop :=
  b.sealing.position / 2 ^ 32 = b'.sealing.position / 2 ^ 32 ∨
    b'.sealing.counter < COUNTER_RESTART_CEILING

instance : DecidableRel SameTurnOrEarly := fun b b' =>
  inferInstanceAs (Decidable (b.sealing.position / 2 ^ 32 = b'.sealing.position / 2 ^ 32 ∨
    b'.sealing.counter < COUNTER_RESTART_CEILING))

variable {aead table key mac} {s : Coordinator} {b b' : Broadcast}

variable (key mac) in
theorem advertisingCounter_payload (hcorrect : aead.Correct 4)
    (hcounter : b.sealing.counter < 4294967296) :
    advertisingCounter (b.payload aead key mac) = some b.sealing.counter :=
  advertisingCounter_sealedWith hcorrect (by simp [Broadcast.serviceData]) hcounter

theorem decrypt_payload (hcorrect : aead.Correct 4) (hcounter : b.sealing.counter < 4294967296) :
    decryptAdvertising aead (b.payload aead key mac) key (Hex.joined .upper ':' mac) =
      .ok (some (PKT_ID :: b.body)) := by
  unfold Broadcast.payload sealedAdvertising
  rw [decryptAdvertising_cons]
  exact openUnder_sealedWith hcorrect (by simp [Broadcast.serviceData]) hcounter

/-- A genuine packet is taken in exactly if the replay check lets it through. -/
theorem takenIn_iff (hcorrect : aead.Correct 4) (hcounter : b.sealing.counter < 4294967296)
    (hkey : s.bindkey = some key) :
    TakenIn aead key mac s b ↔ s.counterIncreased (b.payload aead key mac) = true := by
  refine ⟨fun h => h.1, fun hincreased => ⟨hincreased, ?_⟩⟩
  have hadv := advertisingCounter_payload key mac hcorrect hcounter
  rw [Coordinator.plaintext_sealed hkey (Coordinator.isEncrypted_of_advertisingCounter hadv)]
  simp only [hincreased, Bool.not_true, Bool.false_eq_true, if_false,
    decrypt_payload hcorrect hcounter, hadv, Option.getD_some]

theorem counterIncreased_payload (hcorrect : aead.Correct 4)
    (hcounter : b.sealing.counter < 4294967296) :
    s.counterIncreased (b.payload aead key mac) = true ↔
      (s.bindkeyVerified = some true → s.encryptionCounter ≤ b.sealing.counter ∨
        b.sealing.counter < COUNTER_RESTART_CEILING) := by
  simp only [Coordinator.counterIncreased, advertisingCounter_payload key mac hcorrect hcounter,
    Bool.or_eq_true, decide_eq_true_eq]
  by_cases hverified : s.bindkeyVerified = some true <;> simp [hverified]

/-- Less than a turn apart, the later counter is no smaller exactly on the same turn. -/
theorem counter_le_iff_same_turn {p q : ℕ} (hpq : p ≤ q) (hlt : q < p + 4294967296) :
    p % 4294967296 ≤ q % 4294967296 ↔ p / 4294967296 = q / 4294967296 := by
  omega

/-- The receiver once it has taken in a packet of its own device. -/
structure Following (key : Bytes) (s : Coordinator) (b : Broadcast) : Prop where
  bindkey : s.bindkey = some key
  verified : s.bindkeyVerified = some true
  counter : s.encryptionCounter = b.sealing.counter

theorem TakenIn.following (hcorrect : aead.Correct 4) (hcounter : b.sealing.counter < 4294967296)
    (hkey : s.bindkey = some key) (h : TakenIn aead key mac s b) :
    Following key (hear aead table key mac s b) b := by
  obtain ⟨hbindkey, hverified, hencryption⟩ := Coordinator.handleAdvertisement_check aead table
    (Hex.joined .upper ':' mac) (s := s) (advertisingCounter_payload key mac hcorrect hcounter)
  rw [h.2] at hbindkey hverified hencryption
  exact ⟨hbindkey.trans hkey, hverified, hencryption⟩

/-- Packets that follow one another in a life, all within a turn of the circle. -/
structure InOrder (heard : List Broadcast) : Prop where
  counter : ∀ b ∈ heard, b.sealing.counter = b.sealing.position % 4294967296
  ascending : heard.Pairwise fun b b' => b.sealing.position ≤ b'.sealing.position
  near : ∀ b ∈ heard, ∀ b' ∈ heard, b'.sealing.position < b.sealing.position + 4294967296

theorem InOrder.tail {heard : List Broadcast} (h : InOrder (b :: heard)) : InOrder heard where
  counter c hc := h.counter c (List.mem_cons_of_mem _ hc)
  ascending := h.ascending.tail
  near c hc c' hc' := h.near c (List.mem_cons_of_mem _ hc) c' (List.mem_cons_of_mem _ hc')

theorem InOrder.counter_lt {heard : List Broadcast} (h : InOrder heard) (hb : b ∈ heard) :
    b.sealing.counter < 4294967296 := by
  rw [h.counter b hb]
  exact Nat.mod_lt _ (by norm_num)

variable (table mac) in
/-- Behind a packet just taken in, the rest is taken in as far as the chain holds. -/
theorem along_takenIn_iff (hcorrect : aead.Correct 4) {heard : List Broadcast}
    (hfollowing : Following key s b) (horder : InOrder (b :: heard)) :
    Runs.Along (hear aead table key mac) (TakenIn aead key mac) s heard ↔
      (b :: heard).IsChain SameTurnOrEarly := by
  induction heard generalizing s b with
  | nil => simp [Runs.Along]
  | cons b' rest ih =>
      have hb : b ∈ b :: b' :: rest := by simp
      have hb' : b' ∈ b :: b' :: rest := by simp
      have hle :=
        List.rel_of_pairwise_cons horder.ascending (List.mem_cons_self .. : b' ∈ b' :: rest)
      have hturn := counter_le_iff_same_turn hle (horder.near b hb b' hb')
      rw [← horder.counter b hb, ← horder.counter b' hb'] at hturn
      have htaken : TakenIn aead key mac s b' ↔ SameTurnOrEarly b b' := by
        rw [takenIn_iff hcorrect (horder.counter_lt hb') hfollowing.bindkey,
          counterIncreased_payload hcorrect (horder.counter_lt hb'), hfollowing.counter, hturn]
        simp [SameTurnOrEarly, hfollowing.verified]
      rw [List.isChain_cons_cons, ← htaken, Runs.Along]
      refine and_congr_right fun h => ?_
      exact ih (h.following hcorrect (horder.counter_lt hb') hfollowing.bindkey) horder.tail

/-- What a life sends is in order, and so is what is heard of it. -/
theorem inOrder_of_hears {start : ℕ} {w : World} (hflash : AdvFlash start w)
    (hspent : w.trail.spent < 4294967296) {sent heard : List Broadcast}
    (hsent : sent.map Broadcast.sealing = advertised w) (hheard : Hears sent heard) :
    InOrder heard := by
  have hmem : ∀ b ∈ heard, b.sealing ∈ w.sealed := by
    intro b hb
    have hadvertised : b.sealing ∈ advertised w := hsent ▸ List.mem_map_of_mem (hheard.subset hb)
    exact (List.mem_filter.mp hadvertised).1
  have hascending : sent.Pairwise fun b b' => b.sealing.position < b'.sealing.position := by
    have hall : (advertised w).Pairwise fun u v => u.position < v.position :=
      hflash.ascending.filter _
    rw [← hsent, List.pairwise_map] at hall
    exact hall
  have htotal := hflash.spent
  refine ⟨fun b hb => hflash.counter _ (hmem b hb), ?_, ?_⟩
  · refine (hheard.pairwise hascending).imp ?_
    rintro b b' (rfl | hlt)
    · exact le_rfl
    · exact hlt.le
  · intro b hb b' hb'
    have hstart := hflash.start_le _ (hmem b hb)
    have hbehind := hflash.behind _ (hmem b' hb')
    omega

/-- A receiver that hears, of a life of its device, some packets in order takes in all of them
exactly if no wrap lies between two that follow one another, or the later of the two was sealed
under a counter below the ceiling. -/
theorem heard_packets_taken_in (aead : Aead) (table : ObjectTable) (key mac : Bytes)
    (declaration : Option Declaration) (writeCounter : ℤ) (file : Option MarksFile)
    (events : List Event) (sent heard : List Broadcast) (hcorrect : aead.Correct 4)
    (hflash : ∀ e ∈ events, FlashWorks e)
    (hspent : (Runs.run (Life.step aead) (Life.powerOn file) events).world.trail.spent < 2 ^ 32)
    (hsent : sent.map Broadcast.sealing =
      advertised (Runs.run (Life.step aead) (Life.powerOn file) events).world)
    (hheard : Hears sent heard) :
    Runs.Along (hear aead table key mac) (TakenIn aead key mac)
        (Coordinator.start (some key) declaration writeCounter) heard ↔
      heard.IsChain SameTurnOrEarly := by
  obtain ⟨hinv, -⟩ := advInv_run_synced aead file hflash
  norm_num at hspent
  have horder : InOrder heard := inOrder_of_hears hinv.flash hspent hsent hheard
  cases heard with
  | nil => simp [Runs.Along]
  | cons b rest =>
      have hcounter := horder.counter_lt (List.mem_cons_self .. : b ∈ b :: rest)
      -- before the first packet there is nothing to compare with
      have hfirst : TakenIn aead key mac (Coordinator.start (some key) declaration writeCounter)
          b := by
        rw [takenIn_iff hcorrect hcounter rfl, counterIncreased_payload hcorrect hcounter]
        simp [Coordinator.start]
      rw [Runs.Along, ← along_takenIn_iff table mac hcorrect
        (hfirst.following hcorrect hcounter rfl) horder]
      exact and_iff_right hfirst

/-- A device ten counters before the wrap is booted twice; the second boot claims the next
stride. -/
def sampleReboots : Life :=
  Runs.run (Life.step sampleCcm) (Life.powerOn (some (.object (some 0) (some 4294967286))))
    [.setup sampleOpts [], .powerCut, .setup sampleOpts []]

/-- The first packet after the second boot is refused as a replay. -/
theorem packet_past_the_wrap_refused :
    let sent := sampleReboots.world.sealed.map fun u => Broadcast.mk u [0x01]
    sampleReboots.world.trail.spent < 2 ^ 32 ∧
      sent.map Broadcast.sealing = advertised sampleReboots.world ∧
      sent.map (fun b => b.sealing.counter) = [4294967286, 999990] ∧ Hears sent sent ∧
      ¬ Runs.Along (hear sampleCcm (fun _ => none) sampleOpts.key sampleOpts.mac)
        (TakenIn sampleCcm sampleOpts.key sampleOpts.mac)
        (Coordinator.start (some sampleOpts.key) none 0) sent := by
  refine ⟨by decide +kernel, by decide +kernel, by decide +kernel, Hears.refl _, ?_⟩
  rintro ⟨-, ⟨hincreased, -⟩, -⟩
  exact absurd hincreased (by decide +kernel)

/-- Packets on both sides of the wrap, the first heard twice and the one after it soon enough. -/
theorem heard_packets_taken_in_sample :
    let life := Runs.run (Life.step sampleCcm)
      (Life.powerOn (some (.object (some 0) (some 4294967294))))
      [.setup sampleOpts [], .seal [0x00, 0x02] READ_INFO [], .seal [0x00, 0x03] DEV_INFO_ENC []]
    let sent := (advertised life.world).map fun u => Broadcast.mk u [0x01]
    let heard := sent.take 1 ++ sent
    Runs.Along (hear sampleCcm (fun _ => none) sampleOpts.key sampleOpts.mac)
      (TakenIn sampleCcm sampleOpts.key sampleOpts.mac)
      (Coordinator.start (some sampleOpts.key) none 0) heard := by
  intro life sent heard
  refine (heard_packets_taken_in sampleCcm _ _ _ _ _ (some (.object (some 0) (some 4294967294)))
    [.setup sampleOpts [], .seal [0x00, 0x02] READ_INFO [], .seal [0x00, 0x03] DEV_INFO_ENC []] sent
    heard (Aead.tagging_ideal [] []).toCorrect (by decide) (by decide +kernel) (by decide +kernel)
    (.heard (Hears.refl sent))).mpr ?_
  decide +kernel

end BTHomeWritable.Agreement
