import BTHomeWritable.Firmware.Writes
import BTHomeWritable.Receiver.Coordinator

/-!
# One object, as the device and the receiver take it

What a central writes to an entry and what it reads from one is an object, an id
and a value.  `parseWrite` and `decode_object` check it in different orders, and
where they refuse they refuse it for different reasons; what they let through is
the same.

`WellFormed` is the meeting point: a value as long as the entry is, or as long as its
first byte says.  The device accepts just the id with such a value
(`parseWrite_ok_iff`), and where the receiver's table `Matches` the spec of the entry
so does the receiver (`decodeObject_ok_iff`).  `same_objects` follows, for every entry
and payload.
-/

namespace BTHomeWritable.Agreement

open Device Firmware Receiver

/-- The spec of the device's entry matches what the receiver's table has for its id. -/
structure Matches (table : ObjectTable) (w : Writable) (entry : WritableEntry) : Prop where
  id : w.spec.id = entry.objectId
  width : ∃ dataFormat fixed, table entry.objectId = some (dataFormat, fixed) ∧
    dataFormat ≠ COMMAND_FORMAT ∧
    if dataFormat ∈ LENGTH_PREFIXED_FORMATS then w.spec.variableLength = true
    else w.spec.variableLength = false ∧ w.spec.length = some fixed

/-- As long as the entry is, or as long as the first byte says. -/
def WellFormed (w : Writable) (value : Bytes) : Prop :=
  if w.spec.variableLength then ∃ count rest, value = count :: rest ∧ rest.length = count.toNat
  else w.spec.length = some value.length

variable {table : ObjectTable} {w : Writable} {entry : WritableEntry} {pl value : Bytes}

/-- Under its id a value is accepted if it is as long as it has to be. -/
theorem parseWrite_cons_ok_iff {rest : Bytes} :
    parseWrite (w.spec.id :: rest) w = .ok value ↔ rest = value ∧
      ¬ (w.spec.variableLength = true ∧ rest = []) ∧ rest.length = bytesNeeded rest w.spec := by
  unfold parseWrite
  simp only [ne_eq, not_true_eq_false, if_false, Bool.and_eq_true, List.isEmpty_iff]
  split
  · rename_i hmissing
    simp [hmissing]
  · rename_i hpresent
    split
    · rename_i hshort
      simp [hshort.ne]
    split
    · rename_i hlong
      simp [hlong.ne']
    · have hlength : rest.length = bytesNeeded rest w.spec := by omega
      simp only [Except.ok.injEq, hpresent, hlength, not_false_eq_true, and_self, and_true]

/-- The device accepts what is well formed. -/
theorem parseWrite_ok_iff (h : w.spec.variableLength = true ∨ w.spec.length.isSome) :
    parseWrite pl w = .ok value ↔ pl = w.spec.id :: value ∧ WellFormed w value := by
  cases pl with
  | nil => simp [parseWrite]
  | cons id rest =>
      by_cases hid : id = w.spec.id
      · subst hid
        rw [parseWrite_cons_ok_iff, List.cons.injEq]
        simp only [true_and]
        apply and_congr_right
        rintro rfl
        unfold WellFormed bytesNeeded
        cases hvariable : w.spec.variableLength with
        | true =>
            cases rest with
            | nil => simp
            | cons count rest =>
                simp
                omega
        | false =>
            obtain ⟨n, hn⟩ : ∃ n, w.spec.length = some n := by
              simpa [hvariable, Option.isSome_iff_exists] using h
            simp [hn, eq_comm]
      · simp [parseWrite, hid]

theorem Matches.specified (h : Matches table w entry) :
    w.spec.variableLength = true ∨ w.spec.length.isSome := by
  obtain ⟨dataFormat, fixed, -, -, hwidth⟩ := h.width
  split at hwidth
  · exact Or.inl hwidth
  · exact Or.inr (by simp [hwidth.2])

/-- Under its id a value is accepted if it is as long as `_value_length` says. -/
theorem decodeObject_cons_ok_iff {dataFormat : String} {fixed : ℕ} {rest : Bytes}
    (htable : table entry.objectId = some (dataFormat, fixed)) :
    decodeObject table entry (entry.objectId :: rest) = .ok value ↔ rest = value ∧
      valueLength (entry.objectId :: rest) 0 dataFormat fixed = .ok rest.length := by
  simp only [decodeObject, ne_eq, not_true_eq_false, if_false, htable]
  cases valueLength (entry.objectId :: rest) 0 dataFormat fixed with
  | error e => simp
  | ok length =>
      by_cases hlength : rest.length = length
      · simp [hlength, Nat.add_comm]
      · have hother : (entry.objectId :: rest).length ≠ 1 + length := by
          simp only [List.length_cons]
          omega
        simp only [if_pos hother]
        simp [Ne.symm hlength]

/-- So does the receiver. -/
theorem decodeObject_ok_iff (h : Matches table w entry) :
    decodeObject table entry pl = .ok value ↔
      pl = encodeObject entry value ∧ WellFormed w value := by
  obtain ⟨dataFormat, fixed, htable, hcommand, hwidth⟩ := h.width
  cases pl with
  | nil => simp [decodeObject, encodeObject]
  | cons id rest =>
      by_cases hid : id = entry.objectId
      · subst hid
        rw [decodeObject_cons_ok_iff htable, encodeObject, List.cons.injEq]
        simp only [true_and]
        apply and_congr_right
        rintro rfl
        unfold WellFormed valueLength
        by_cases hprefixed : dataFormat ∈ LENGTH_PREFIXED_FORMATS
        · rw [if_pos hprefixed] at hwidth ⊢
          cases rest with
          | nil => simp [hwidth]
          | cons count rest =>
              simp [hwidth]
              omega
        · rw [if_neg hprefixed] at hwidth ⊢
          simp [hwidth, hcommand]
      · simp [decodeObject, encodeObject, hid]

/-- Both accept the same strings and take the same values from them, and these are the encodings
of well-formed values. -/
theorem same_objects (table : ObjectTable) (w : Writable) (entry : WritableEntry)
    (h : Matches table w entry) (pl value : Bytes) :
    (parseWrite pl w = .ok value ↔ decodeObject table entry pl = .ok value) ∧
      (parseWrite pl w = .ok value ↔ pl = encodeObject entry value ∧ WellFormed w value) := by
  have hdevice : parseWrite pl w = .ok value ↔
      pl = encodeObject entry value ∧ WellFormed w value := by
    rw [parseWrite_ok_iff h.specified, h.id]
    rfl
  exact ⟨hdevice.trans (decodeObject_ok_iff h).symm, hdevice⟩

/-- A text, whose length byte is part of the value. -/
theorem same_objects_sample :
    let w : Writable := ⟨⟨0x53, none, true, .text⟩, 1, 0, true⟩
    let pl : Bytes := [0x53, 0x02, 0x68, 0x69]
    let value : Bytes := [0x02, 0x68, 0x69]
    (parseWrite pl w = .ok value ↔
        decodeObject (fun id => if id = 0x53 then some ("string", 0) else none) ⟨1, 0x53⟩ pl =
          .ok value) ∧
      (parseWrite pl w = .ok value ↔ pl = encodeObject ⟨1, 0x53⟩ value ∧ WellFormed w value) :=
  same_objects _ _ _ ⟨rfl, "string", 0, rfl, by decide, by decide⟩ _ _

end BTHomeWritable.Agreement
