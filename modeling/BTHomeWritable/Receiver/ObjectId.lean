import BTHomeWritable.Receiver.Coordinator

/-!
# The object a value is written as

`async_apply` looks at the declaration before a command is queued, `_write_now`
looks again when the command has been taken, and the object id on the wire is
the second look's.  The two agree where, at the moment a command is taken, its
entry is declared as what the value was encoded for or not declared at all.

* `takes` reads off a step which command it takes, and `Kept` asks of it that the
  two looks agree.
* `CoordinatorInv` lines up what was called, what was attempted and what was sent:
  calls with the objects they were encoded for, pops of the queue with attempts,
  and each of what was sent with the attempt it comes from.
* A step of the queue goes `through` the coordinator with at most one attempt
  (`CoordinatorInv.through`), a call adds one object, and a transmission one
  payload.

`written_as_encoded` is the run under `Kept`; `value_written_as_another_object` is one
in which the declaration changes while a command waits.
-/

namespace BTHomeWritable.Receiver

open Overtaking (Mark entries pops)

namespace Queue

variable {q : Queue} {i : ℕ} (address : String)

/-! ## What a step takes -/

@[simp] theorem strand_log (q : Queue) (i : ℕ) : (q.strand address i).log = q.log := by
  unfold strand
  rw [settleAll_eq]

@[simp] theorem stop_log (q : Queue) (i : ℕ) : (q.stop address i).log = q.log := by
  unfold stop
  split
  · exact strand_log address q i
  · rfl

theorem pops_enter (q : Queue) (c : Queued) : pops (q.enter c).log = pops q.log := by
  rw [enter_eq]
  unfold startFlush
  split <;> simp

theorem pops_take (q : Queue) (i : ℕ) :
    pops (q.take address i).log = pops q.log ++ q.pending.head?.toList := by
  unfold take
  cases hpending : q.pending with
  | nil => simp
  | cons c rest => simp

theorem pops_loop (q : Queue) (i : ℕ) : pops (q.loop address i).log =
    pops q.log ++ (if q.lock = [] then q.pending.head? else none).toList := by
  unfold loop
  split
  · exact pops_take address q i
  · simp

/-- `takes` is what the step takes. -/
theorem pops_step (q : Queue) (a : QueueAct) :
    pops (q.step address a).log = pops q.log ++ (q.takes a).toList := by
  match a with
  | .call entry value coalesce =>
      simp only [step, takes]
      split
      · simp [pops_enter]
      · simp
  | .grant =>
      simp only [step, takes]
      split
      · rename_i hlock
        simp [hlock]
      · rename_i c rest hlock
        simp [hlock, pops_enter]
      · rename_i j rest hlock
        simp only [hlock]
        split
        · rename_i ht
          simp [ht, pops_take]
        · rename_i ht
          simp [ht]
        · rename_i hother _
          rw [if_neg fun ht => hother ht]
          simp
  | .acknowledge i raises =>
      simp only [step, takes]
      split
      · simp
      · simp
  | .finish i result raises =>
      simp only [step, takes]
      split
      · rename_i c ht
        simp [ht, pops_loop]
      · rename_i c ht
        cases raises <;> simp [ht, pops_loop]
      · rename_i c e ht
        cases raises <;> simp [ht, pops_loop]
      · -- a task that is not where the step wants it takes nothing, as `takes` says too
        rename_i result _ _ hnone₁ hnone₂ hnone₃
        split
        · rename_i c answered ht
          cases answered with
          | true => exact absurd ht (hnone₁ c)
          | false =>
              cases result with
              | ok _ => exact absurd rfl (hnone₂ c ht)
              | error e => exact absurd rfl (hnone₃ c e ht)
        · simp
  | .cancel i =>
      simp only [step, takes]
      split <;> simp

end Queue

namespace Coordinator

variable {aead : Aead} {table : ObjectTable} {address : List Char} {s : Coordinator}

/-! ## Taking -/

/-- The command that a step takes from the queue. -/
def takes (s : Coordinator) : CoordinatorAct → Option Queued
  | .grant => s.queue.takes .grant
  | .finish i result raises =>
      if (s.writing i).isSome then s.queue.takes (.finish i result raises) else none
  | _ => none

/-- A command that is taken is for an entry declared as the object its value was encoded for, or
for one not declared at all. -/
def Kept (s : Coordinator) (a : CoordinatorAct) : Prop :=
  (s.takes a).all fun c =>
    s.declared c.entry = none || s.declared c.entry = s.encodedFor[c.waiter]?

instance Kept.decidable (s : Coordinator) (a : CoordinatorAct) : Decidable (s.Kept a) :=
  inferInstanceAs (Decidable (_ = true))

/-- `_write_now` goes on with what the entry is declared as. -/
theorem beginWrite_ok {c : Queued} {entry : WritableEntry} {plain : Bytes}
    (h : s.beginWrite address c = .ok (entry, plain)) :
    s.declared c.entry = some entry.objectId ∧ plain = encodeObject entry c.value := by
  unfold beginWrite at h
  simp only at h
  split at h
  · exact absurd h (by simp)
  split at h
  · exact absurd h (by simp)
  split at h
  · exact absurd h (by simp)
  split at h
  · exact absurd h (by simp)
  split at h
  · exact absurd h (by simp)
  · rename_i found hfound
    obtain ⟨rfl, rfl⟩ := Prod.mk.inj (Except.ok.inj h)
    exact ⟨by simp [declared, hfound], rfl⟩

/-- `_write_now` raises over an entry that is not declared. -/
theorem beginWrite_error {c : Queued} (h : s.declared c.entry = none) :
    ∃ e, s.beginWrite address c = .error e := by
  cases hbegin : s.beginWrite address c with
  | error e => exact ⟨e, rfl⟩
  | ok begun =>
      rw [(beginWrite_ok hbegin).1] at h
      exact absurd h (by simp)

/-! ## The invariant -/

/-- The bytes on the wire are the plaintext, or the plaintext sealed under the key. -/
def Framed (aead : Aead) (address : List Char) (bindkey : Option Bytes) (t : Sent) : Prop :=
  match bindkey with
  | none => t.payload = t.plain
  | some bindkey => ∃ counter : ℤ, sealWrite aead t.plain bindkey address counter = .ok t.payload

structure CoordinatorInv (aead : Aead) (address : List Char) (s : Coordinator) : Prop where
  shape : s.queue.Shape
  numbered : s.encodedFor.length = s.queue.calls.length
  attempted : s.attempts.map Attempt.command = pops s.queue.log
  begun : ∀ a ∈ s.attempts, ∀ entry plain, a.outcome = .ok (entry, plain) →
    a.declared = some entry.objectId ∧ plain = encodeObject entry a.command.value
  kept : ∀ a ∈ s.attempts, (a.declared = none ∧ ∃ e, a.outcome = .error e) ∨
    a.declared = s.encodedFor[a.command.waiter]?
  transmitted : ∀ t ∈ s.sent, (∃ a ∈ s.attempts, a.command = t.command ∧
    ∃ entry, a.outcome = .ok (entry, t.plain)) ∧ Framed aead address s.bindkey t

theorem coordinatorInv_start (bindkey : Option Bytes) (declaration : Option Declaration)
    (writeCounter : ℤ) :
    CoordinatorInv aead address (start bindkey declaration writeCounter) where
  shape := Queue.shape_empty
  numbered := rfl
  attempted := rfl
  begun := by simp [start]
  kept := by simp [start]
  transmitted := by simp [start]

theorem CoordinatorInv.frame (h : CoordinatorInv aead address s) {s' : Coordinator}
    (hframe : Frame s s') : CoordinatorInv aead address s' where
  shape := by rw [hframe.queue]; exact h.shape
  numbered := by rw [hframe.encodedFor, hframe.queue]; exact h.numbered
  attempted := by rw [hframe.attempts, hframe.queue]; exact h.attempted
  begun := by rw [hframe.attempts]; exact h.begun
  kept := by rw [hframe.attempts, hframe.encodedFor]; exact h.kept
  transmitted := by rw [hframe.sent, hframe.attempts, hframe.bindkey]; exact h.transmitted

/-! ## One step -/

/-- A step of the queue that is not a call. -/
theorem CoordinatorInv.through (h : CoordinatorInv aead address s) {act : QueueAct}
    (hact : act.isCall = false)
    (hkept : ∀ c ∈ s.queue.takes act, s.declared c.entry = none ∨
      s.declared c.entry = s.encodedFor[c.waiter]?) :
    CoordinatorInv aead address (s.through address act) := by
  have hcases : ∀ a ∈ (s.through address act).attempts, a ∈ s.attempts ∨
      ∃ c ∈ s.queue.takes act, a = ⟨c, s.declared c.entry, s.beginWrite address c⟩ := by
    intro a ha
    rcases List.mem_append.mp ha with hold | hnew
    · exact Or.inl hold
    · obtain ⟨c, hc, rfl⟩ := List.mem_map.mp hnew
      exact Or.inr ⟨c, Option.mem_toList.mp hc, rfl⟩
  refine
    { shape := Queue.step_shape h.shape act
      numbered := ?_
      attempted := ?_
      begun := ?_
      kept := ?_
      transmitted := ?_ }
  · show s.encodedFor.length = (s.queue.step _ act).calls.length
    rw [Queue.calls_step _ _ hact]
    exact h.numbered
  · show (s.attempts ++ _).map Attempt.command = pops (s.queue.step _ act).log
    rw [Queue.pops_step, List.map_append, h.attempted, List.map_map]
    exact congrArg _ (List.map_id _)
  · intro a ha entry plain hok
    rcases hcases a ha with hold | ⟨c, -, rfl⟩
    · exact h.begun a hold entry plain hok
    · exact beginWrite_ok hok
  · intro a ha
    rcases hcases a ha with hold | ⟨c, hc, rfl⟩
    · exact h.kept a hold
    · exact (hkept c hc).imp_left fun hnone => ⟨hnone, beginWrite_error hnone⟩
  · intro t ht
    obtain ⟨⟨a, ha, hcommand⟩, hframed⟩ := h.transmitted t ht
    exact ⟨⟨a, List.mem_append_left _ ha, hcommand⟩, hframed⟩

/-- A value that an entity hands over is noted with the object it was encoded for. -/
theorem CoordinatorInv.call (h : CoordinatorInv aead address s) (objectId : UInt8) (entry : ℤ)
    (value : Bytes) (coalesce : Bool) :
    CoordinatorInv aead address (Coordinator.through address
      { s with encodedFor := s.encodedFor ++ [objectId] } (.call entry value coalesce)) := by
  have hattempts : (Coordinator.through address { s with encodedFor := s.encodedFor ++ [objectId] }
      (.call entry value coalesce)).attempts = s.attempts := List.append_nil _
  refine
    { shape := ?_
      numbered := ?_
      attempted := ?_
      begun := by rw [hattempts]; exact h.begun
      kept := ?_
      transmitted := by rw [hattempts]; exact h.transmitted }
  · show Queue.Shape (s.queue.step (String.ofList address) (.call entry value coalesce))
    exact Queue.step_shape h.shape _
  · show (s.encodedFor ++ [objectId]).length = (s.queue.step _ _).calls.length
    rw [Queue.calls_step_call]
    simp [h.numbered]
  · show _ = pops (s.queue.step _ _).log
    rw [hattempts, h.attempted, Queue.pops_step]
    exact (List.append_nil _).symm
  · rw [hattempts]
    intro a ha
    rcases h.kept a ha with hnone | hkept
    · exact Or.inl hnone
    · -- what was attempted had been called before, so its number is below the new one's
      have hlt : a.command.waiter < s.encodedFor.length := by
        have hpopped : a.command ∈ pops s.queue.log := by
          rw [← h.attempted]
          exact List.mem_map_of_mem ha
        have hentered : a.command ∈ entries s.queue.log :=
          h.shape.taken.subset (List.mem_append_left _ hpopped)
        have hnumber : a.command.waiter ∈ List.range s.queue.calls.length := by
          rw [← h.shape.numbered, h.shape.calls]
          exact List.mem_map_of_mem (by simp [hentered])
        rw [h.numbered]
        exact List.mem_range.mp hnumber
      right
      show a.declared = (s.encodedFor ++ [objectId])[a.command.waiter]?
      rw [List.getElem?_append_left hlt]
      exact hkept

theorem CoordinatorInv.transmit (h : CoordinatorInv aead address s) (i : ℕ) (challenge : Bytes)
    (reply : Reply) : CoordinatorInv aead address (s.transmit aead address i challenge reply) := by
  have hsend : ∀ (asking : Asking) (t : Sent), (∃ a ∈ s.attempts, a.command = t.command ∧
      ∃ entry, a.outcome = .ok (entry, t.plain)) → Framed aead address s.bindkey t →
      CoordinatorInv aead address { s with asking := asking, sent := s.sent ++ [t] } := by
    intro asking t hattempt hframed
    exact
      { shape := h.shape
        numbered := h.numbered
        attempted := h.attempted
        begun := h.begun
        kept := h.kept
        transmitted := Runs.forall_mem_concat.mpr ⟨h.transmitted, hattempt, hframed⟩ }
  unfold Coordinator.transmit
  split
  · rename_i c declared entry plain hwriting
    have hattempt : ∃ a ∈ s.attempts, a.command = c ∧ ∃ entry, a.outcome = .ok (entry, plain) := by
      unfold writing at hwriting
      split at hwriting
      · rename_i d answered ht
        exact ⟨_, List.mem_of_find?_eq_some hwriting, rfl, entry, rfl⟩
      · exact absurd hwriting (by simp)
    split
    · exact h
    split
    · rename_i hkey
      exact hsend s.asking ⟨c, plain, plain⟩ hattempt (by simp [Framed, hkey])
    · rename_i bindkey hkey
      split
      · exact h
      · rename_i asking _
        simp only
        split
        · exact h.frame ⟨rfl, rfl, rfl, rfl, rfl⟩
        · rename_i payload hseal
          refine hsend _ ⟨c, plain, payload⟩ hattempt ?_
          rw [hkey]
          exact ⟨_, hseal⟩
  · exact h

theorem CoordinatorInv.step (h : CoordinatorInv aead address s) {a : CoordinatorAct}
    (ha : s.Kept a) : CoordinatorInv aead address (s.step aead table address a) := by
  have hkept : ∀ c ∈ s.takes a, s.declared c.entry = none ∨
      s.declared c.entry = s.encodedFor[c.waiter]? := by
    intro c hc
    obtain hc : s.takes a = some c := hc
    simpa [Kept, hc] using ha
  match a with
  | .apply control value =>
      simp only [Coordinator.step]
      split
      · exact h.call _ _ _ _
      · exact h
  | .advertise payload => exact h.frame (frame_handleAdvertisement payload)
  | .appear reachable => exact h.frame ⟨rfl, rfl, rfl, rfl, rfl⟩
  | .grant => exact h.through rfl hkept
  | .transmit i challenge reply => exact h.transmit i challenge reply
  | .acknowledge i raises =>
      simp only [Coordinator.step]
      split
      · split
        · exact h.through rfl (by simp [Queue.takes])
        · exact h
      · exact h
  | .finish i result raises =>
      simp only [Coordinator.step]
      split
      · rename_i hwriting
        simp only [takes, hwriting, Option.isSome_some, if_true] at hkept
        exact h.through rfl hkept
      · rename_i hwriting
        simp only [takes, hwriting, Option.isSome_some, if_true] at hkept
        exact h.through rfl hkept
      · exact h
  | .cancel i => exact h.through rfl (by simp [Queue.takes])

theorem CoordinatorInv.run (h : CoordinatorInv aead address s) {acts : List CoordinatorAct}
    (hkept : Runs.Along (Coordinator.step aead table address) Kept s acts) :
    CoordinatorInv aead address (Runs.run (Coordinator.step aead table address) s acts) := by
  have hstep : ∀ (s : Coordinator) (a : CoordinatorAct), CoordinatorInv aead address s →
      s.Kept a → CoordinatorInv aead address (s.step aead table address a) :=
    fun _ _ hs ha => hs.step ha
  exact Runs.run_invariant hstep h hkept

/-! ## Written as it was encoded -/

structure WritesAsEncoded (aead : Aead) (address : List Char) (s : Coordinator) : Prop where
  /-- What goes out for a call is the object its value was encoded for, and that value. -/
  plain : ∀ t ∈ s.sent, t.command ∈ s.queue.calls ∧
    ∃ o, s.encodedFor[t.command.waiter]? = some o ∧ t.plain = o :: t.command.value
  framed : ∀ t ∈ s.sent, Framed aead address s.bindkey t
  /-- Taken while its entry was not declared as that object: refused, and nothing is written. -/
  refused : ∀ a ∈ s.attempts, a.declared ≠ s.encodedFor[a.command.waiter]? →
    (∃ e, a.outcome = .error e) ∧ ∀ t ∈ s.sent, t.command ≠ a.command

theorem CoordinatorInv.writesAsEncoded (h : CoordinatorInv aead address s) :
    WritesAsEncoded aead address s := by
  have hpops : (pops s.queue.log).Nodup :=
    Queue.nodup_of_ascending (h.shape.entries_ascending.sublist
      ((List.sublist_append_left _ _).trans h.shape.taken))
  refine
    { plain := ?_
      framed := fun t ht => (h.transmitted t ht).2
      refused := ?_ }
  · intro t ht
    obtain ⟨⟨a, ha, hcommand, entry, hok⟩, -⟩ := h.transmitted t ht
    obtain ⟨hdeclared, hplain⟩ := h.begun a ha entry t.plain hok
    have hpopped : a.command ∈ pops s.queue.log := by
      rw [← h.attempted]
      exact List.mem_map_of_mem ha
    rw [← hcommand]
    refine ⟨?_, entry.objectId, ?_, hplain⟩
    · have hentered := h.shape.taken.subset (List.mem_append_left _ hpopped)
      rw [h.shape.calls]
      simp [hentered]
    · rcases h.kept a ha with ⟨hnone, -⟩ | hkept
      · rw [hdeclared] at hnone
        exact absurd hnone (by simp)
      · rw [← hkept, hdeclared]
  · intro a ha hne
    rcases h.kept a ha with ⟨-, e, herror⟩ | hkept
    · refine ⟨⟨e, herror⟩, ?_⟩
      intro t ht hsame
      obtain ⟨⟨b, hb, hcommand, entry, hok⟩, -⟩ := h.transmitted t ht
      -- a command is attempted once, and this attempt was refused
      have hnodup : (s.attempts.map Attempt.command).Nodup := by
        rw [h.attempted]
        exact hpops
      have hab := List.inj_on_of_nodup_map hnodup hb ha (hcommand.trans hsame)
      rw [hab, herror] at hok
      exact absurd hok (by simp)
    · exact absurd hkept hne

/-- In every interleaving in which a command is only taken while its entry is declared as the
object its value was encoded for, or not at all. -/
theorem written_as_encoded (aead : Aead) (table : ObjectTable) (address : List Char)
    (bindkey : Option Bytes) (declaration : Option Declaration) (writeCounter : ℤ)
    (acts : List CoordinatorAct)
    (hkept : Runs.Along (Coordinator.step aead table address) Kept
      (start bindkey declaration writeCounter) acts) :
    WritesAsEncoded aead address (Runs.run (Coordinator.step aead table address)
      (start bindkey declaration writeCounter) acts) :=
  ((coordinatorInv_start bindkey declaration writeCounter).run hkept).writesAsEncoded

def sampleAddress : List Char := "A4:C1:38:00:00:01".toList

/-- Two switches, as a stored declaration has them. -/
def sampleLayout : Declaration := ⟨[⟨1, 0x0F⟩, ⟨2, 0x0F⟩], none⟩

/-- A command is in the air and one for each entry waits when the device comes back with its first
switch only. -/
def sampleShrinks : List CoordinatorAct :=
  [.appear true, .apply ⟨1, 0x0F, true⟩ [1], .grant, .apply ⟨1, 0x0F, true⟩ [0],
    .apply ⟨2, 0x0F, true⟩ [1], .advertise [0x41, 0xFF, 1, 0x0F, 9, 0, 0, 0, 0, 0, 0, 0],
    .transmit 0 [] .absent, .acknowledge 0 false, .finish 0 (.ok ()) false,
    .transmit 0 [] .absent, .acknowledge 0 false, .finish 0 (.ok ()) false,
    .finish 0 (.ok ()) false]

theorem written_as_encoded_sample :
    WritesAsEncoded (Aead.tagging [] []) sampleAddress
      (Runs.run (Coordinator.step (Aead.tagging [] []) (fun _ => none) sampleAddress)
        (start (some (List.replicate 16 0x2B)) (some sampleLayout) 1760000000) sampleShrinks) :=
  written_as_encoded _ _ _ _ _ _ _ (by decide +kernel)

/-- A switch is turned off while its last command is in the air, and entry 1 becomes a text. -/
def sampleBecomesText : List CoordinatorAct :=
  [.appear true, .apply ⟨1, 0x0F, true⟩ [1], .grant, .apply ⟨1, 0x0F, true⟩ [0],
    .advertise [0x40, 0xFF, 1, 0x53], .transmit 0 [] .absent, .acknowledge 0 false,
    .finish 0 (.ok ()) false, .transmit 0 [] .absent]

/-- The value that was encoded for `0x0F` goes out as an object `0x53`. -/
theorem value_written_as_another_object :
    ∃ t ∈ (Runs.run (Coordinator.step (Aead.tagging [] []) (fun _ => none) sampleAddress)
        (start none (some sampleLayout) 0) sampleBecomesText).sent,
      (Runs.run (Coordinator.step (Aead.tagging [] []) (fun _ => none) sampleAddress)
        (start none (some sampleLayout) 0) sampleBecomesText).encodedFor[t.command.waiter]? =
          some 0x0F ∧ t.plain = 0x53 :: t.command.value := by
  decide +kernel

end Coordinator

end BTHomeWritable.Receiver
