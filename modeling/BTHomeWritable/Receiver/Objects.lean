import BTHomeWritable.Lib.Hex
import BTHomeWritable.Wire

/-!
# Objects and declarations on the receiver

The half of `protocol.py` that walks service data.  `bthome-ble`'s object table
is a parameter: it maps an object id to a format name and a width, and only the
three format names below give the width another meaning.

`valueLength` is how many bytes an object takes, from the table and the bytes that
are there; `splitObjectsFrom` walks on from one object to the next and stops at a
declaration, which `parseDeclaration` then reads.  `decodeObject` takes apart what a
read of one entry answers.

An object that `Fits` the table is one that the walk gets over, so what was put
together from such objects comes apart into them (`splitObjects_encode`), a
declaration behind them included (`parseDeclaration_encode_declaration`).
-/

namespace BTHomeWritable.Receiver

def PACKET_ID_OBJECT_ID : UInt8 := 0x00
def DECLARATION_OBJECT_ID : UInt8 := 0xFF
def SETTINGS_REVISION_OBJECT_ID : UInt8 := 0x65
def LENGTH_PREFIXED_FORMATS : List String := ["raw", "string"]
def COMMAND_FORMAT : String := "command"
def COMMAND_OBJECT_ID : UInt8 := 0x3B
def FORBIDDEN_ENTRIES : List UInt8 :=
  [PACKET_ID_OBJECT_ID, COMMAND_OBJECT_ID, DECLARATION_OBJECT_ID, SETTINGS_REVISION_OBJECT_ID, 0xF0,
    0xF1, 0xF2]

/-- The exceptions the modelled functions can raise. -/
inductive PyError where
  | protocolError (message : String)
  | overflowError
  | valueError
  | indexError
  deriving DecidableEq

/-- `_object_table()`. -/
abbrev ObjectTable := UInt8 → Option (String × ℕ)

structure WritableEntry where
  entry : ℕ
  objectId : UInt8
  deriving DecidableEq

structure Declaration where
  entries : List WritableEntry
  settingsRevision : Option ℕ
  deriving DecidableEq

def hexByte (b : UInt8) : String := String.ofList (Hex.byteText .upper b)

/-- `_value_length`. -/
def valueLength (payload : Bytes) (offset : ℕ) (dataFormat : String) (fixed : ℕ) :
    Except PyError ℕ :=
  if dataFormat ∈ LENGTH_PREFIXED_FORMATS then
    match payload[offset + 1]? with
    | none => .error (.protocolError
        s!"no length byte for object 0x{hexByte (payload.getD offset 0)}")
    | some b => .ok (1 + b.toNat)
  else if dataFormat = COMMAND_FORMAT then
    match payload[offset + 1]? with
    | none => .error (.protocolError "no argument length for a command object")
    | some b => .ok (2 + b.toNat % 32)
  else .ok fixed

variable (table : ObjectTable)

/-- The loop of `split_objects`, from `offset` with what was collected before it. -/
def splitObjectsFrom (payload : Bytes) (objects : List Obj) (offset : ℕ) :
    Except PyError (List Obj × Option ℕ) :=
  if h : offset < payload.length then
    let objectId := payload[offset]
    if objectId = DECLARATION_OBJECT_ID then .ok (objects, some offset)
    else
      match table objectId with
      | none => .ok (objects, none)  -- what follows an unknown id cannot be measured
      | some (dataFormat, fixed) =>
          match valueLength payload offset dataFormat fixed with
          | .error e => .error e
          | .ok length =>
              if offset + 1 + length > payload.length then
                .error (.protocolError
                  s!"truncated payload: object 0x{hexByte objectId} needs {length} bytes")
              else
                splitObjectsFrom payload
                  (objects ++ [⟨objectId, (payload.take (offset + 1 + length)).drop (offset + 1)⟩])
                  (offset + 1 + length)
  else .ok (objects, none)
termination_by payload.length - offset

def splitObjects (payload : Bytes) : Except PyError (List Obj × Option ℕ) :=
  splitObjectsFrom table payload [] 0

/-- `enumerate(ids, start=1)`. -/
def entriesFrom : ℕ → Bytes → List WritableEntry
  | _, [] => []
  | k, id :: ids => ⟨k, id⟩ :: entriesFrom (k + 1) ids

/-- The first settings revision among the objects. -/
def revisionOf (objects : List Obj) : Except PyError (Option ℕ) :=
  match objects.find? (·.id = SETTINGS_REVISION_OBJECT_ID) with
  | none => .ok none
  | some ⟨_, []⟩ => .error .indexError
  | some ⟨_, b :: _⟩ => .ok (some b.toNat)

def parseDeclaration (payload : Bytes) : Except PyError (Option Declaration) := do
  if payload.isEmpty then pure none
  else
    match ← splitObjects table payload with
    | (_, none) => pure none
    | (objects, some offset) =>
        match payload[offset + 1]? with
        | none => throw (.protocolError "the declaration has no length byte")
        | some count =>
            let ids := (payload.take (offset + 2 + count.toNat)).drop (offset + 2)
            if ids.length ≠ count.toNat then
              throw (.protocolError
                s!"the declaration claims {count} entries and carries {ids.length}")
            else do
              let revision ← revisionOf objects
              pure (some ⟨entriesFrom 1 ids, revision⟩)

/-! ## Reads -/

/-- What reading an entry can raise: a `StaleEntry`, or anything else. -/
inductive ReadError where
  | staleEntry (message : String)
  | other (e : PyError)
  deriving DecidableEq

/-- `decode_object`. -/
def decodeObject (entry : WritableEntry) (payload : Bytes) : Except ReadError Bytes :=
  match payload with
  | [] => .error (.other (.protocolError "empty read"))
  | objectId :: value =>
      if objectId ≠ entry.objectId then
        .error (.staleEntry (s!"entry {entry.entry}: read object 0x{hexByte objectId}, " ++
          s!"expected 0x{hexByte entry.objectId}"))
      else
        match table entry.objectId with
        | none => .error (.other (.protocolError
            s!"entry {entry.entry}: unknown object 0x{hexByte entry.objectId}"))
        | some (dataFormat, fixed) =>
            match valueLength payload 0 dataFormat fixed with
            | .error e => .error (.other e)
            | .ok length =>
                if payload.length ≠ 1 + length then
                  .error (.other (.protocolError
                    (s!"entry {entry.entry}: read is {payload.length - 1} value bytes, " ++
                      s!"expected {length}")))
                else .ok value

/-! ## Well-formed objects -/

/-- The object is as long as the table says an object that starts like it is. -/
def Fits (table : ObjectTable) (o : Obj) : Prop :=
  o.id ≠ DECLARATION_OBJECT_ID ∧
    ∃ dataFormat fixed, table o.id = some (dataFormat, fixed) ∧
      if dataFormat ∈ LENGTH_PREFIXED_FORMATS then
        ∃ b rest, o.value = b :: rest ∧ rest.length = b.toNat
      else if dataFormat = COMMAND_FORMAT then
        ∃ b rest, o.value = b :: rest ∧ rest.length = 1 + b.toNat % 32
      else o.value.length = fixed

variable {table}

theorem valueLength_of_fits {o : Obj} {payload rest : Bytes} {offset fixed : ℕ}
    {dataFormat : String} (hfits : Fits table o) (htable : table o.id = some (dataFormat, fixed))
    (hdrop : payload.drop offset = o.id :: o.value ++ rest) :
    valueLength payload offset dataFormat fixed = .ok o.value.length := by
  obtain ⟨-, dataFormat', fixed', htable', hwidth⟩ := hfits
  obtain ⟨rfl, rfl⟩ : dataFormat = dataFormat' ∧ fixed = fixed' := by
    simpa [htable] using htable'
  have hnext : payload[offset + 1]? = (o.value ++ rest)[0]? := by
    have hget : (payload.drop offset)[1]? = payload[offset + 1]? := List.getElem?_drop
    rw [← hget, hdrop]
    rfl
  unfold valueLength
  by_cases hprefixed : dataFormat ∈ LENGTH_PREFIXED_FORMATS
  · rw [if_pos hprefixed] at hwidth ⊢
    obtain ⟨b, tail, hvalue, hlength⟩ := hwidth
    rw [hnext, hvalue]
    simp [hlength, Nat.add_comm]
  · rw [if_neg hprefixed] at hwidth ⊢
    by_cases hcommand : dataFormat = COMMAND_FORMAT
    · rw [if_pos hcommand] at hwidth ⊢
      obtain ⟨b, tail, hvalue, hlength⟩ := hwidth
      rw [hnext, hvalue]
      simp [hlength]
      omega
    · rw [if_neg hcommand] at hwidth ⊢
      rw [hwidth]

/-- One turn of the loop over a well-formed object. -/
theorem splitObjectsFrom_cons {o : Obj} {payload rest : Bytes} {objects : List Obj} {offset : ℕ}
    (hfits : Fits table o) (hdrop : payload.drop offset = o.id :: o.value ++ rest) :
    splitObjectsFrom table payload objects offset =
      splitObjectsFrom table payload (objects ++ [o]) (offset + 1 + o.value.length) := by
  obtain ⟨dataFormat, fixed, htable, -⟩ := hfits.2
  have hlength := congrArg List.length hdrop
  simp only [List.length_drop, List.cons_append, List.length_cons, List.length_append] at hlength
  have hlt : offset < payload.length := by omega
  have hid : payload[offset] = o.id := by
    have hget : (payload.drop offset)[0]? = payload[offset]? := List.getElem?_drop
    rw [hdrop, List.getElem?_eq_getElem hlt] at hget
    exact (Option.some.inj hget).symm
  have hvalue : (payload.take (offset + 1 + o.value.length)).drop (offset + 1) = o.value := by
    rw [List.drop_take, ← List.drop_drop, hdrop]
    simp
  rw [splitObjectsFrom, dif_pos hlt]
  simp only [hid, if_neg hfits.1, htable, valueLength_of_fits hfits htable hdrop]
  rw [if_neg (by omega), hvalue]

/-- The walk over well-formed objects arrives behind them with all of them in hand. -/
theorem splitObjectsFrom_encode {payload rest : Bytes} (os objects : List Obj) (offset : ℕ)
    (hfits : ∀ o ∈ os, Fits table o) (hdrop : payload.drop offset = encode os ++ rest) :
    splitObjectsFrom table payload objects offset =
      splitObjectsFrom table payload (objects ++ os) (offset + (encode os).length) := by
  induction os generalizing objects offset with
  | nil => simp [encode]
  | cons o os ih =>
      have hsplit : encode (o :: os) = o.id :: o.value ++ encode os := by
        simp [encode]
      rw [hsplit, List.append_assoc] at hdrop
      have hnext : payload.drop (offset + 1 + o.value.length) = encode os ++ rest := by
        rw [Nat.add_assoc, ← List.drop_drop, hdrop]
        exact List.drop_left' (by simp [Nat.add_comm])
      rw [splitObjectsFrom_cons (hfits o (by simp)) hdrop,
        ih (objects ++ [o]) _ (fun o' ho' => hfits o' (List.mem_cons_of_mem _ ho')) hnext]
      have hlength : offset + 1 + o.value.length + (encode os).length =
          offset + (encode (o :: os)).length := by
        rw [hsplit]
        simp
        omega
      rw [hlength, List.append_assoc]
      rfl

theorem splitObjects_encode {os : List Obj} (hfits : ∀ o ∈ os, Fits table o) :
    splitObjects table (encode os) = .ok (os, none) := by
  have hdrop : (encode os).drop 0 = encode os ++ [] := by simp
  unfold splitObjects
  rw [splitObjectsFrom_encode os [] 0 hfits hdrop, splitObjectsFrom, dif_neg (by simp)]
  simp

theorem splitObjects_encode_declaration {os : List Obj} (hfits : ∀ o ∈ os, Fits table o)
    (tail : Bytes) :
    splitObjects table (encode os ++ DECLARATION_OBJECT_ID :: tail) =
      .ok (os, some (encode os).length) := by
  have hdrop : (encode os ++ DECLARATION_OBJECT_ID :: tail).drop 0 =
      encode os ++ DECLARATION_OBJECT_ID :: tail := rfl
  unfold splitObjects
  rw [splitObjectsFrom_encode os [] 0 hfits hdrop, splitObjectsFrom, dif_pos (by simp)]
  simp

/-! ## Declarations -/

theorem parseDeclaration_encode {os : List Obj} (hos : os ≠ []) (hfits : ∀ o ∈ os, Fits table o) :
    parseDeclaration table (encode os) = .ok none := by
  have hne : (encode os).isEmpty = false := by
    obtain ⟨o, rest, rfl⟩ := List.exists_cons_of_ne_nil hos
    rfl
  unfold parseDeclaration
  rw [hne, splitObjects_encode hfits]
  rfl

theorem parseDeclaration_encode_declaration {os : List Obj} {ids : Bytes} {revision : Option ℕ}
    (hfits : ∀ o ∈ os, Fits table o) (hids : ids.length ≤ 255)
    (hrevision : revisionOf os = .ok revision) :
    parseDeclaration table
        (encode os ++ DECLARATION_OBJECT_ID :: UInt8.ofNat ids.length :: ids) =
      .ok (some ⟨entriesFrom 1 ids, revision⟩) := by
  have hne : (encode os ++ DECLARATION_OBJECT_ID :: UInt8.ofNat ids.length :: ids).isEmpty =
      false := by
    cases encode os <;> rfl
  have hcount : (encode os ++ DECLARATION_OBJECT_ID :: UInt8.ofNat ids.length :: ids)[
      (encode os).length + 1]? = some (UInt8.ofNat ids.length) := by
    rw [List.getElem?_append_right (by omega), Nat.add_sub_cancel_left]
    rfl
  have hlength : (UInt8.ofNat ids.length).toNat = ids.length := by
    rw [UInt8.toNat_ofNat']
    omega
  have hdrop : (encode os ++ DECLARATION_OBJECT_ID :: UInt8.ofNat ids.length :: ids).drop
      ((encode os).length + 2) = ids := by
    rw [← List.drop_drop, List.drop_left]
    rfl
  have hslice : ((encode os ++ DECLARATION_OBJECT_ID :: UInt8.ofNat ids.length :: ids).take
      ((encode os).length + 2 + ids.length)).drop ((encode os).length + 2) = ids := by
    rw [List.drop_take, hdrop, Nat.add_sub_cancel_left, List.take_length]
  unfold parseDeclaration
  rw [hne, splitObjects_encode_declaration hfits]
  show (match (encode os ++ DECLARATION_OBJECT_ID :: UInt8.ofNat ids.length :: ids)[
      (encode os).length + 1]? with | none => _ | some count => _) = _
  rw [hcount]
  simp only [hlength, hslice, ne_eq, not_true_eq_false, if_false, hrevision]
  rfl

end BTHomeWritable.Receiver
