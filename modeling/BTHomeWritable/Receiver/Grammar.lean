import BTHomeWritable.Lib.LittleEndian
import BTHomeWritable.Receiver.Objects

/-!
# The grammar of service data

Service data is objects one behind the other, each as long as the table says an
object that starts like it is.  The walk gets over as many of them as there are
and ends at a declaration, at an id it does not know, at the end, or inside an
object that is cut off.  A declaration is read where the walk meets one and
nowhere else, whatever the bytes before it look like.

* `Walked` says where the walk stands and what it has got over, `Stops` that it
  ends there, and `Declares` that it meets a declaration.
* `splitObjectsFrom_ok` and `splitObjectsFrom_error` are inductions along the walk;
  `Walked.splitObjects_eq` is the other direction, from the objects to the walk.
* `parseDeclaration_at` is the parser behind the walk, and the three lemmas after it
  its outcomes.

`Grammar` puts the six statements together, each an equivalence where the code
returns, and `accepts_grammar` proves them of every table and payload.
-/

namespace BTHomeWritable.Receiver

variable (table : ObjectTable)

/-- The walk stands at `offset`, with `objects` behind it. -/
structure Walked (payload : Bytes) (objects : List Obj) (offset : ℕ) : Prop where
  fits : ∀ o ∈ objects, Fits table o
  behind : payload.take offset = encode objects
  within : offset ≤ payload.length

/-- A walk that stands at `offset` ends there without a declaration. -/
def Stops (payload : Bytes) (offset : ℕ) : Prop :=
  offset = payload.length ∨
    ∃ id, payload[offset]? = some id ∧ id ≠ DECLARATION_OBJECT_ID ∧ table id = none

/-- The settings revision is one byte wide, if the table has it. -/
def OneByteRevision : Prop :=
  ∀ dataFormat fixed, table SETTINGS_REVISION_OBJECT_ID = some (dataFormat, fixed) →
    dataFormat ∉ LENGTH_PREFIXED_FORMATS ∧ dataFormat ≠ COMMAND_FORMAT ∧ fixed = 1

/-- The value of the first settings revision among the objects. -/
def firstRevision : List Obj → Option ℕ
  | [] => none
  | o :: rest =>
      if o.id = SETTINGS_REVISION_OBJECT_ID then some (LittleEndian.ofLE o.value)
      else firstRevision rest

/-- Behind `objects` the walk meets a declaration of `ids`. -/
def Declares (payload : Bytes) (objects : List Obj) (ids : Bytes) : Prop :=
  ∃ offset count, Walked table payload objects offset ∧
    payload[offset]? = some DECLARATION_OBJECT_ID ∧ payload[offset + 1]? = some count ∧
    ids.length = count.toNat ∧ ids <+: payload.drop (offset + 2)

/-- What `split_objects` and `parse_declaration` make of a payload. -/
structure Grammar (payload : Bytes) : Prop where
  declaration : ∀ objects offset, splitObjects table payload = .ok (objects, some offset) ↔
    Walked table payload objects offset ∧ payload[offset]? = some DECLARATION_OBJECT_ID
  undeclared : ∀ objects, splitObjects table payload = .ok (objects, none) ↔
    ∃ offset, Walked table payload objects offset ∧ Stops table payload offset
  split_raises : ∀ e, splitObjects table payload = .error e → ∃ message, e = .protocolError message
  reads : ∀ d, parseDeclaration table payload = .ok (some d) ↔
    ∃ objects, Declares table payload objects (d.entries.map WritableEntry.objectId) ∧
      d.entries.map WritableEntry.entry = List.range' 1 d.entries.length ∧
      d.settingsRevision = firstRevision objects
  reads_none : parseDeclaration table payload = .ok none ↔
    ∃ objects offset, Walked table payload objects offset ∧ Stops table payload offset
  raises : ∀ e, parseDeclaration table payload = .error e → ∃ message, e = .protocolError message

variable {table} {payload : Bytes} {objects : List Obj} {offset : ℕ}

/-! ## The walk -/

theorem walked_start (payload : Bytes) : Walked table payload [] 0 :=
  ⟨by simp, by simp [encode], Nat.zero_le _⟩

/-- A measured object that is not cut off fits. -/
theorem fits_of_valueLength {dataFormat : String} {fixed length : ℕ} (hlt : offset < payload.length)
    (hid : payload[offset] ≠ DECLARATION_OBJECT_ID)
    (htable : table payload[offset] = some (dataFormat, fixed))
    (hlength : valueLength payload offset dataFormat fixed = .ok length)
    (hwithin : offset + 1 + length ≤ payload.length) :
    Fits table ⟨payload[offset],
      (payload.take (offset + 1 + length)).drop (offset + 1)⟩ := by
  have hvalue : (payload.take (offset + 1 + length)).drop (offset + 1) =
      (payload.drop (offset + 1)).take length := by
    rw [List.drop_take, Nat.add_sub_cancel_left]
  have hwidth : ((payload.drop (offset + 1)).take length).length = length := by
    rw [List.length_take, List.length_drop]
    omega
  refine ⟨hid, dataFormat, fixed, htable, ?_⟩
  rw [hvalue]
  unfold valueLength at hlength
  -- the length byte of a text or a command is the first of its value, and counts for it
  by_cases hprefixed : dataFormat ∈ LENGTH_PREFIXED_FORMATS
  · rw [if_pos hprefixed] at hlength ⊢
    cases hnext : payload[offset + 1]? with
    | none => simp [hnext] at hlength
    | some b =>
        obtain rfl : 1 + b.toNat = length := by simpa [hnext] using hlength
        obtain ⟨hlt', hb⟩ := List.getElem?_eq_some_iff.mp hnext
        rw [List.drop_eq_getElem_cons hlt', hb, Nat.add_comm 1, List.take_succ_cons] at hwidth ⊢
        refine ⟨b, _, rfl, ?_⟩
        simpa using hwidth
  · rw [if_neg hprefixed] at hlength ⊢
    by_cases hcommand : dataFormat = COMMAND_FORMAT
    · rw [if_pos hcommand] at hlength ⊢
      cases hnext : payload[offset + 1]? with
      | none => simp [hnext] at hlength
      | some b =>
          obtain rfl : 2 + b.toNat % 32 = length := by simpa [hnext] using hlength
          obtain ⟨hlt', hb⟩ := List.getElem?_eq_some_iff.mp hnext
          have hsucc : 2 + b.toNat % 32 = 1 + b.toNat % 32 + 1 := by omega
          rw [List.drop_eq_getElem_cons hlt', hb, hsucc, List.take_succ_cons] at hwidth ⊢
          refine ⟨b, _, rfl, ?_⟩
          simpa using hwidth
    · rw [if_neg hcommand] at hlength ⊢
      obtain rfl : fixed = length := by simpa using hlength
      exact hwidth

theorem Walked.next (h : Walked table payload objects offset) {length : ℕ}
    (hlt : offset < payload.length) (hwithin : offset + 1 + length ≤ payload.length)
    (hfits : Fits table ⟨payload[offset],
      (payload.take (offset + 1 + length)).drop (offset + 1)⟩) :
    Walked table payload (objects ++ [⟨payload[offset],
      (payload.take (offset + 1 + length)).drop (offset + 1)⟩]) (offset + 1 + length) := by
  refine ⟨?_, ?_, hwithin⟩
  · intro o ho
    rcases List.mem_append.mp ho with ho | ho
    · exact h.fits o ho
    · rw [List.mem_singleton.mp ho]
      exact hfits
  · have hsplit : encode (objects ++ [⟨payload[offset],
        (payload.take (offset + 1 + length)).drop (offset + 1)⟩]) =
        encode objects ++ payload[offset] ::
          (payload.take (offset + 1 + length)).drop (offset + 1) := by
      simp [encode]
    rw [hsplit, ← h.behind, List.drop_take, Nat.add_sub_cancel_left, Nat.add_assoc, List.take_add,
      List.drop_eq_getElem_cons hlt, Nat.add_comm 1, List.take_succ_cons]

/-- Where the walk ends it ends as it should. -/
theorem splitObjectsFrom_ok {found : List Obj} {declared : Option ℕ}
    (hwalked : Walked table payload objects offset)
    (h : splitObjectsFrom table payload objects offset = .ok (found, declared)) :
    ∃ stop, Walked table payload found stop ∧
      (declared = some stop ∧ payload[stop]? = some DECLARATION_OBJECT_ID ∨
        declared = none ∧ Stops table payload stop) := by
  -- along the walk, with what has been got over as the invariant
  induction objects, offset using splitObjectsFrom.induct table payload with
  | case1 objects offset hlt objectId hdeclaration =>
      rw [splitObjectsFrom, dif_pos hlt, if_pos hdeclaration] at h
      obtain ⟨rfl, rfl⟩ : objects = found ∧ some offset = declared := by simpa using h
      have hat : payload[offset]? = some DECLARATION_OBJECT_ID :=
        List.getElem?_eq_some_iff.mpr ⟨hlt, hdeclaration⟩
      exact ⟨offset, hwalked, Or.inl ⟨rfl, hat⟩⟩
  | case2 objects offset hlt objectId hid hunknown =>
      rw [splitObjectsFrom, dif_pos hlt, if_neg hid] at h
      simp only [objectId] at hid hunknown
      simp only [hunknown] at h
      obtain ⟨rfl, rfl⟩ : objects = found ∧ none = declared := by simpa using h
      have hat : payload[offset]? = some payload[offset] := List.getElem?_eq_getElem hlt
      exact ⟨offset, hwalked, Or.inr ⟨rfl, Or.inr ⟨_, hat, hid, hunknown⟩⟩⟩
  | case3 objects offset hlt objectId hid dataFormat fixed htable e hlength =>
      rw [splitObjectsFrom, dif_pos hlt, if_neg hid] at h
      simp only [objectId] at htable
      simp [htable, hlength] at h
  | case4 objects offset hlt objectId hid dataFormat fixed htable length hlength hcut =>
      rw [splitObjectsFrom, dif_pos hlt, if_neg hid] at h
      simp only [objectId] at htable
      simp [htable, hlength, hcut] at h
  | case5 objects offset hlt objectId hid dataFormat fixed htable length hlength hwithin ih =>
      rw [splitObjectsFrom, dif_pos hlt, if_neg hid] at h
      simp only [objectId] at hid htable
      simp only [htable, hlength, hwithin, if_false] at h
      have hle : offset + 1 + length ≤ payload.length := Nat.le_of_not_gt hwithin
      have hfits := fits_of_valueLength hlt hid htable hlength hle
      exact ih (hwalked.next hlt hle hfits) h
  | case6 objects offset hend =>
      rw [splitObjectsFrom, dif_neg hend] at h
      obtain ⟨rfl, rfl⟩ : objects = found ∧ none = declared := by simpa using h
      have hstop : offset = payload.length := Nat.le_antisymm hwalked.within (Nat.le_of_not_lt hend)
      exact ⟨offset, hwalked, Or.inr ⟨rfl, Or.inl hstop⟩⟩

theorem valueLength_error {dataFormat : String} {fixed : ℕ} {e : PyError}
    (h : valueLength payload offset dataFormat fixed = .error e) :
    ∃ message, e = .protocolError message := by
  unfold valueLength at h
  split at h
  · split at h
    · exact ⟨_, (Except.error.inj h).symm⟩
    · exact absurd h (by simp)
  · split at h
    · split at h
      · exact ⟨_, (Except.error.inj h).symm⟩
      · exact absurd h (by simp)
    · exact absurd h (by simp)

theorem splitObjectsFrom_error {e : PyError}
    (h : splitObjectsFrom table payload objects offset = .error e) :
    ∃ message, e = .protocolError message := by
  induction objects, offset using splitObjectsFrom.induct table payload with
  | case1 objects offset hlt objectId hdeclaration =>
      rw [splitObjectsFrom, dif_pos hlt, if_pos hdeclaration] at h
      exact absurd h (by simp)
  | case2 objects offset hlt objectId hid hunknown =>
      rw [splitObjectsFrom, dif_pos hlt, if_neg hid] at h
      simp only [objectId] at hunknown
      simp [hunknown] at h
  | case3 objects offset hlt objectId hid dataFormat fixed htable e' hlength =>
      rw [splitObjectsFrom, dif_pos hlt, if_neg hid] at h
      simp only [objectId] at htable
      simp only [htable, hlength] at h
      exact Except.error.inj h ▸ valueLength_error hlength
  | case4 objects offset hlt objectId hid dataFormat fixed htable length hlength hcut =>
      rw [splitObjectsFrom, dif_pos hlt, if_neg hid] at h
      simp only [objectId] at htable
      simp only [htable, hlength, hcut, if_true] at h
      exact ⟨_, (Except.error.inj h).symm⟩
  | case5 objects offset hlt objectId hid dataFormat fixed htable length hlength hwithin ih =>
      rw [splitObjectsFrom, dif_pos hlt, if_neg hid] at h
      simp only [objectId] at htable
      simp only [htable, hlength, hwithin, if_false] at h
      exact ih h
  | case6 objects offset hend =>
      rw [splitObjectsFrom, dif_neg hend] at h
      exact absurd h (by simp)

/-- Whatever stands between two boundaries, the walk gets from the first to the second. -/
theorem Walked.splitObjects_eq (h : Walked table payload objects offset) :
    splitObjects table payload = splitObjectsFrom table payload objects offset := by
  have hdrop : payload.drop 0 = encode objects ++ payload.drop offset := by
    rw [← h.behind, List.take_append_drop, List.drop_zero]
  have hlength : (encode objects).length = offset := by
    rw [← h.behind, List.length_take]
    exact Nat.min_eq_left h.within
  have hwalk := splitObjectsFrom_encode objects [] 0 h.fits hdrop
  simpa [splitObjects, hlength] using hwalk

/-- The walk ends at the declaration at which it stands. -/
theorem splitObjects_declaration (objects : List Obj) (offset : ℕ) :
    splitObjects table payload = .ok (objects, some offset) ↔
      Walked table payload objects offset ∧ payload[offset]? = some DECLARATION_OBJECT_ID := by
  constructor
  · intro h
    obtain ⟨stop, hwalked, ⟨hsome, hat⟩ | ⟨hnone, -⟩⟩ :=
      splitObjectsFrom_ok (walked_start payload) h
    · obtain rfl := Option.some.inj hsome
      exact ⟨hwalked, hat⟩
    · exact absurd hnone (by simp)
  · rintro ⟨hwalked, hat⟩
    obtain ⟨hlt, hid⟩ := List.getElem?_eq_some_iff.mp hat
    rw [hwalked.splitObjects_eq, splitObjectsFrom, dif_pos hlt]
    simp [hid]

theorem splitObjects_undeclared (objects : List Obj) :
    splitObjects table payload = .ok (objects, none) ↔
      ∃ offset, Walked table payload objects offset ∧ Stops table payload offset := by
  constructor
  · intro h
    obtain ⟨stop, hwalked, ⟨hsome, -⟩ | ⟨-, hstops⟩⟩ :=
      splitObjectsFrom_ok (walked_start payload) h
    · exact absurd hsome (by simp)
    · exact ⟨stop, hwalked, hstops⟩
  · rintro ⟨offset, hwalked, hend | ⟨id, hat, hid, hunknown⟩⟩
    · rw [hwalked.splitObjects_eq, splitObjectsFrom, dif_neg (by omega)]
    · obtain ⟨hlt, rfl⟩ := List.getElem?_eq_some_iff.mp hat
      rw [hwalked.splitObjects_eq, splitObjectsFrom, dif_pos hlt]
      simp only [hid, if_false, hunknown]

/-! ## The declaration -/

/-- `enumerate(ids, start=k)`, from its two columns. -/
theorem eq_entriesFrom_iff {entries : List WritableEntry} {ids : Bytes} (k : ℕ) :
    entries = entriesFrom k ids ↔ entries.map WritableEntry.objectId = ids ∧
      entries.map WritableEntry.entry = List.range' k entries.length := by
  induction entries generalizing k ids with
  | nil => cases ids <;> simp [entriesFrom]
  | cons e entries ih =>
      cases ids with
      | nil => simp [entriesFrom]
      | cons id ids =>
          have hrest : entries = entriesFrom (k + 1) ids ↔ _ := ih (k + 1)
          have he : e = ⟨k, id⟩ ↔ e.objectId = id ∧ e.entry = k := by
            cases e
            simp [and_comm]
          simp only [entriesFrom, List.cons.injEq, he, hrest, List.map_cons, List.length_cons,
            List.range'_succ]
          exact and_and_and_comm

/-- With a revision that is one byte wide there is no `IndexError`. -/
theorem revisionOf_eq (hrevision : OneByteRevision table) (hfits : ∀ o ∈ objects, Fits table o) :
    revisionOf objects = .ok (firstRevision objects) := by
  induction objects with
  | nil => rfl
  | cons o rest ih =>
      have hrest := ih fun o' ho' => hfits o' (List.mem_cons_of_mem _ ho')
      by_cases hid : o.id = SETTINGS_REVISION_OBJECT_ID
      · obtain ⟨-, dataFormat, fixed, htable, hwidth⟩ := hfits o (by simp)
        obtain ⟨hprefixed, hcommand, rfl⟩ := hrevision dataFormat fixed (hid ▸ htable)
        rw [if_neg hprefixed, if_neg hcommand] at hwidth
        obtain ⟨b, hvalue⟩ := List.length_eq_one_iff.mp hwidth
        obtain ⟨id, value⟩ := o
        simp only at hid hvalue
        simp [revisionOf, firstRevision, hid, hvalue, LittleEndian.ofLE]
      · simpa [revisionOf, firstRevision, hid] using hrest

theorem parseDeclaration_of_error {e : PyError} (h : splitObjects table payload = .error e) :
    parseDeclaration table payload = .error e := by
  have hne : payload.isEmpty = false := by
    cases payload with
    | nil => simp [splitObjects, splitObjectsFrom] at h
    | cons _ _ => rfl
  simp [parseDeclaration, hne, h, bind, Except.bind]

theorem parseDeclaration_of_undeclared (h : splitObjects table payload = .ok (objects, none)) :
    parseDeclaration table payload = .ok none := by
  unfold parseDeclaration
  split
  · rfl
  · rw [h]
    rfl

/-- `parse_declaration`, from the declaration at which the walk ends. -/
theorem parseDeclaration_of_declaration
    (h : splitObjects table payload = .ok (objects, some offset)) :
    parseDeclaration table payload =
      match payload[offset + 1]? with
      | none => .error (.protocolError "the declaration has no length byte")
      | some count =>
          if ((payload.drop (offset + 2)).take count.toNat).length ≠ count.toNat then
            .error (.protocolError
              (s!"the declaration claims {count} entries and carries " ++
                s!"{((payload.drop (offset + 2)).take count.toNat).length}"))
          else
            (revisionOf objects).map fun revision =>
              some ⟨entriesFrom 1 ((payload.drop (offset + 2)).take count.toNat), revision⟩ := by
  have hne : payload.isEmpty = false := by
    cases payload with
    | nil => simp [splitObjects, splitObjectsFrom] at h
    | cons _ _ => rfl
  have hids : ∀ n, (payload.take (offset + 2 + n)).drop (offset + 2) =
      (payload.drop (offset + 2)).take n := by
    intro n
    rw [List.drop_take, Nat.add_sub_cancel_left]
  unfold parseDeclaration
  simp only [hne, h, bind, Except.bind, hids, Bool.false_eq_true, if_false]
  cases payload[offset + 1]? with
  | none => rfl
  | some count =>
      simp only
      split
      · rfl
      · cases revisionOf objects <;> rfl

/-- What follows a declaration decides whether it is read. -/
theorem parseDeclaration_at (hrevision : OneByteRevision table)
    (hwalked : Walked table payload objects offset)
    (hat : payload[offset]? = some DECLARATION_OBJECT_ID) :
    (∃ message, parseDeclaration table payload = .error (.protocolError message)) ∨
      ∃ count, payload[offset + 1]? = some count ∧
        ((payload.drop (offset + 2)).take count.toNat).length = count.toNat ∧
        parseDeclaration table payload =
          .ok (some ⟨entriesFrom 1 ((payload.drop (offset + 2)).take count.toNat),
            firstRevision objects⟩) := by
  have hsplit := (splitObjects_declaration objects offset).mpr ⟨hwalked, hat⟩
  rw [parseDeclaration_of_declaration hsplit, revisionOf_eq hrevision hwalked.fits]
  cases payload[offset + 1]? with
  | none => exact Or.inl ⟨_, rfl⟩
  | some count =>
      simp only
      split
      · exact Or.inl ⟨_, rfl⟩
      · rename_i hlength
        exact Or.inr ⟨count, rfl, not_not.mp hlength, rfl⟩

theorem parseDeclaration_some_iff (hrevision : OneByteRevision table) (d : Declaration) :
    parseDeclaration table payload = .ok (some d) ↔
      ∃ objects, Declares table payload objects (d.entries.map WritableEntry.objectId) ∧
        d.entries.map WritableEntry.entry = List.range' 1 d.entries.length ∧
        d.settingsRevision = firstRevision objects := by
  constructor
  · intro h
    cases hsplit : splitObjects table payload with
    | error e => simp [parseDeclaration_of_error hsplit] at h
    | ok result =>
        obtain ⟨objects, _ | offset⟩ := result
        · simp [parseDeclaration_of_undeclared hsplit] at h
        · obtain ⟨hwalked, hat⟩ := (splitObjects_declaration objects offset).mp hsplit
          obtain ⟨message, herror⟩ | ⟨count, hcount, hlength, hparse⟩ :=
            parseDeclaration_at hrevision hwalked hat
          · simp [herror] at h
          · obtain rfl := Option.some.inj (Except.ok.inj (hparse.symm.trans h))
            obtain ⟨hids, hnumbers⟩ := (eq_entriesFrom_iff 1).mp
              (rfl : entriesFrom 1 ((payload.drop (offset + 2)).take count.toNat) = _)
            refine ⟨objects, ⟨offset, count, hwalked, hat, hcount, ?_, ?_⟩, hnumbers, rfl⟩
            · rw [hids, hlength]
            · rw [hids]
              exact List.take_prefix _ _
  · rintro ⟨objects, ⟨offset, count, hwalked, hat, hcount, hlength, hprefix⟩, hnumbers, hrev⟩
    have hids : (payload.drop (offset + 2)).take count.toNat =
        d.entries.map WritableEntry.objectId := by
      rw [← hlength]
      exact (List.prefix_iff_eq_take.mp hprefix).symm
    have hentries : d.entries = entriesFrom 1 (d.entries.map WritableEntry.objectId) :=
      (eq_entriesFrom_iff 1).mpr ⟨rfl, hnumbers⟩
    have hsplit := (splitObjects_declaration objects offset).mpr ⟨hwalked, hat⟩
    rw [parseDeclaration_of_declaration hsplit, hcount, revisionOf_eq hrevision hwalked.fits]
    simp only [hids, hlength, ne_eq, not_true_eq_false, if_false, Except.map, ← hentries, ← hrev]

theorem parseDeclaration_none_iff (hrevision : OneByteRevision table) :
    parseDeclaration table payload = .ok none ↔
      ∃ objects offset, Walked table payload objects offset ∧ Stops table payload offset := by
  constructor
  · intro h
    cases hsplit : splitObjects table payload with
    | error e => simp [parseDeclaration_of_error hsplit] at h
    | ok result =>
        obtain ⟨objects, _ | offset⟩ := result
        · obtain ⟨offset, hwalked, hstops⟩ := (splitObjects_undeclared objects).mp hsplit
          exact ⟨objects, offset, hwalked, hstops⟩
        · obtain ⟨hwalked, hat⟩ := (splitObjects_declaration objects offset).mp hsplit
          obtain ⟨message, herror⟩ | ⟨count, -, -, hparse⟩ :=
            parseDeclaration_at hrevision hwalked hat
          · simp [herror] at h
          · simp [hparse] at h
  · rintro ⟨objects, offset, hwalked, hstops⟩
    exact parseDeclaration_of_undeclared
      ((splitObjects_undeclared objects).mpr ⟨offset, hwalked, hstops⟩)

theorem parseDeclaration_error (hrevision : OneByteRevision table) {e : PyError}
    (h : parseDeclaration table payload = .error e) : ∃ message, e = .protocolError message := by
  cases hsplit : splitObjects table payload with
  | error e' =>
      obtain rfl : e' = e := Except.error.inj ((parseDeclaration_of_error hsplit).symm.trans h)
      exact splitObjectsFrom_error hsplit
  | ok result =>
      obtain ⟨objects, _ | offset⟩ := result
      · simp [parseDeclaration_of_undeclared hsplit] at h
      · obtain ⟨hwalked, hat⟩ := (splitObjects_declaration objects offset).mp hsplit
        obtain ⟨message, herror⟩ | ⟨count, -, -, hparse⟩ :=
          parseDeclaration_at hrevision hwalked hat
        · exact ⟨message, Except.error.inj (h.symm.trans herror)⟩
        · simp [hparse] at h

/-- The two parsers accept their grammar and nothing else. -/
theorem accepts_grammar (table : ObjectTable) (hrevision : OneByteRevision table)
    (payload : Bytes) : Grammar table payload where
  declaration := splitObjects_declaration
  undeclared := splitObjects_undeclared
  split_raises := fun _ => splitObjectsFrom_error
  reads := parseDeclaration_some_iff hrevision
  reads_none := parseDeclaration_none_iff hrevision
  raises := fun _ => parseDeclaration_error hrevision

/-- A battery at 255, a revision, a text with an id and a declaration in it, two entries. -/
theorem accepts_grammar_sample :
    Grammar (fun id =>
        if id = 0x53 then some ("string", 0)
        else if id = 0x65 ∨ id = 0x01 then some ("unsigned_integer", 1) else none)
      [0x01, 0xFF, 0x65, 0x07, 0x53, 0x02, 0x65, 0xFF, 0xFF, 0x02, 0x0F, 0x53] := by
  apply accepts_grammar
  intro dataFormat fixed h
  obtain ⟨rfl, rfl⟩ : "unsigned_integer" = dataFormat ∧ 1 = fixed := by
    simpa [SETTINGS_REVISION_OBJECT_ID] using h
  exact ⟨by decide, by decide, rfl⟩

end BTHomeWritable.Receiver
