import BTHomeWritable.Receiver.Counter

/-!
# Asking the device for its counter

The question that `_ask_for_the_counter_here` puts on the link of a write, from
the reply on: what the coordinator remembers of it, and the adoption of a
report that opens.  A characteristic that is not found is put down to a stale table
the first time and to the device the second, which is then not asked again; a link
that fails leaves the question armed; a report that does not open ends it, and moves
no counter.

Adoption only ever moves a counter up (`counter_le_adopt`), and so does asking,
whatever the reply is (`counter_le_askForTheCounterHere`).
-/

namespace BTHomeWritable.Receiver

/-- The coordinator's counters and what it remembers of the question. -/
structure Asking where
  counters : Counters
  resyncCounter : Bool
  offersCounterReport : Option Bool
  counterTableDropped : Bool
  deriving DecidableEq

/-- How `_counter_report` ends: it raises, it finds no characteristic, or it reads one. -/
inductive Reply where
  | raised
  | absent
  | report (report : Bytes)

/-- `_ask_for_the_counter_here`, given the challenge drawn and the reply. -/
def askForTheCounterHere (aead : Aead) (bindkey : Bytes) (address : List Char) (a : Asking)
    (challenge : Bytes) : Reply → Except PyError Asking
  | .raised => .ok a  -- left armed, so the next command asks again
  | .absent =>
      if !a.counterTableDropped then .ok { a with counterTableDropped := true }
      else .ok { a with offersCounterReport := some false, resyncCounter := false }
  | .report report => do
      let (_, counters) ← adoptCounter aead bindkey address a.counters report challenge
      pure
        { counters := counters
          resyncCounter := false
          offersCounterReport := some true
          counterTableDropped := false }

variable {aead : Aead} {bindkey : Bytes} {address : List Char}

theorem counter_le_adopt (c : Counters) (reported : Option ℕ) :
    c.counter ≤ (c.adopt reported).2.counter := by
  cases reported with
  | none => exact le_rfl
  | some reported =>
      simp only [Counters.adopt]
      by_cases hbehind : ((reported : ℤ) + 1) % 2 ^ 32 ≤ c.counter
      · rw [if_pos hbehind]
      · rw [if_neg hbehind]
        show c.counter ≤ ((reported : ℤ) + 1) % 2 ^ 32
        omega

/-- No reply, genuine or not, moves the counter down. -/
theorem counter_le_askForTheCounterHere {a a' : Asking} {challenge : Bytes} {reply : Reply}
    (h : askForTheCounterHere aead bindkey address a challenge reply = .ok a') :
    a.counters.counter ≤ a'.counters.counter := by
  cases reply with
  | raised =>
      obtain rfl : a = a' := by simpa [askForTheCounterHere] using h
      exact le_rfl
  | absent =>
      simp only [askForTheCounterHere] at h
      split at h
      · obtain rfl := Except.ok.inj h
        exact le_rfl
      · obtain rfl := Except.ok.inj h
        exact le_rfl
  | report report =>
      simp only [askForTheCounterHere, adoptCounter] at h
      cases hopen : openCounterReport aead report bindkey address challenge with
      | error e =>
          rw [hopen] at h
          exact absurd h (by simp [bind, Except.bind])
      | ok reported =>
          rw [hopen] at h
          obtain rfl := Except.ok.inj h
          exact counter_le_adopt a.counters reported

end BTHomeWritable.Receiver
