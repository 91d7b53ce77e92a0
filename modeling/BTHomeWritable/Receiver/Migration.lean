import BTHomeWritable.Lib.Hex
import BTHomeWritable.Lib.Renaming
import BTHomeWritable.Receiver.Objects

/-!
# The migration of unique ids

`_migrate_unique_ids` of `__init__.py`, with the ids of `protocol.py`.  Texts are
lists of characters.  The entity registry is a list of rows, which keep their
places as they keep their `entity_id`.  Two functions of it are not this
repository's: `async_get_entity_id` and `async_migrate_entries`, parameters
here; `Documented` is what they are documented to do.

* `KnownId` lists the forms that ids of a config entry have, and `Renewed` relates
  an old id to the new one of the same entry.  The lemmas on the callback say that
  it renews just these (`newUniqueId_of_renewed`, `newUniqueId_of_known`).
* Row by row the migration is the library's round of renamings
  (`foldlM_updateRow`), and nobody wishes to leave an id that somebody else wishes
  to have (`settling_renewed`): new ids are not old ones.

`Carried` is what a round makes of a row, and `migration_safe` says that the
migration returns, carries every row, and does nothing the second time.
-/

namespace BTHomeWritable.Receiver

/-! ## Unique ids -/

/-- `{n:02x}`. -/
def hexTwo (n : ℕ) : List Char :=
  let digits := Nat.toDigits 16 n
  List.replicate (2 - digits.length) '0' ++ digits

def entityUniqueId (address : List Char) (entry : ℕ) (objectId : UInt8) : List Char :=
  address ++ ['-', 'e'] ++ Nat.toDigits 10 entry ++ '-' :: hexTwo objectId.toNat

def eventUniqueId (address : List Char) (entry : ℕ) (objectId : UInt8) (code : ℕ) : List Char :=
  entityUniqueId address entry objectId ++ ['-', 'v'] ++ hexTwo code

/-! ## The registry -/

structure RegistryEntry where
  configEntry : String
  domain : String
  platform : String
  uniqueId : List Char
  deriving DecidableEq

abbrev Registry := List RegistryEntry

/-- What a row answers to. -/
def RegistryEntry.identity (row : RegistryEntry) : String × String × List Char :=
  (row.domain, row.platform, row.uniqueId)

/-- A callback of `async_migrate_entries`, which may look at the registry: the new unique id. -/
abbrev EntryCallback := Registry → RegistryEntry → Except PyError (Option (List Char))

/-- The functions of Home Assistant's entity registry. -/
structure EntityRegistryApi where
  asyncGetEntityId : Registry → String → String → List Char → Option ℕ
  asyncMigrateEntries : Registry → String → EntryCallback → Except PyError Registry

/-- The callback on the row at `i`, and `async_update_entity` with what it returns, which raises
where the identity is taken. -/
def updateRow (callback : EntryCallback) (registry : Registry) (i : ℕ) : Except PyError Registry :=
  match registry[i]? with
  | none => .ok registry
  | some row => do
      match ← callback registry row with
      | none => return registry
      | some new =>
          if (row.domain, row.platform, new) ∈ registry.map RegistryEntry.identity then
            throw .valueError
          else return registry.set i { row with uniqueId := new }

/-- The places of a config entry's rows. -/
def rowsOf (registry : Registry) (configEntry : String) : List ℕ :=
  (List.range registry.length).filter fun i =>
    registry[i]?.any fun row => row.configEntry = configEntry

/-- What the registry's functions are documented to do. -/
structure Documented (er : EntityRegistryApi) : Prop where
  getEntityId : ∀ registry domain platform uniqueId,
    (er.asyncGetEntityId registry domain platform uniqueId).isSome ↔
      (domain, platform, uniqueId) ∈ registry.map RegistryEntry.identity
  rowByRow : ∀ registry configEntry callback, ∃ order : List ℕ,
    order.Perm (rowsOf registry configEntry) ∧
      er.asyncMigrateEntries registry configEntry callback =
        order.foldlM (updateRow callback) registry

/-! ## The migration -/

/-- `str.isdigit`; the digits of an id are ASCII. -/
def isDigits (text : List Char) : Bool := text ≠ [] && text.all Char.isDigit

/-- `int(text, 16)` of plain digits. -/
def intHex (text : List Char) : Except PyError ℕ :=
  match text.mapM Hex.value? with
  | some (d :: ds) => .ok ((d :: ds).foldl (fun n digit => 16 * n + digit) 0)
  | _ => .error .valueError

/-- `by_entry`: of two declarations of an entry the last one counts. -/
def byEntry (declaration : Declaration) (entry : ℕ) : Option UInt8 :=
  (declaration.entries.reverse.find? fun item => item.entry = entry).map WritableEntry.objectId

/-- The new unique id of a row, before anybody looks whether it is taken. -/
def newUniqueId (address : List Char) (declared : ℕ → Option UInt8) (row : RegistryEntry) :
    Except PyError (Option (List Char)) :=
  if ¬ (address ++ ['-']) <+: row.uniqueId then .ok none
  else
    let parts := (row.uniqueId.drop (address.length + 1)).splitOn '-'
    let first := parts.headD []
    if !isDigits first then .ok none
    else
      match declared (Nat.ofDigitChars 10 first 0) with
      | none => .ok none
      | some objectId => do
          let entryNumber := Nat.ofDigitChars 10 first 0
          if row.domain = "button" ∧ parts.length = 2 then
            let code ← intHex (parts.getD 1 [])
            return some (eventUniqueId address entryNumber objectId code)
          else if row.domain ≠ "button" ∧ parts.length = 1 then
            return some (entityUniqueId address entryNumber objectId)
          else return none

/-- `_migrate`. -/
def migrate (er : EntityRegistryApi) (address : List Char) (declared : ℕ → Option UInt8) :
    EntryCallback := fun registry row => do
  match ← newUniqueId address declared row with
  | none => return none
  | some new =>
      if (er.asyncGetEntityId registry row.domain row.platform new).isSome then return none
      else return some new

/-- `_migrate_unique_ids`. -/
def migrateUniqueIds (er : EntityRegistryApi) (registry : Registry) (configEntry : String)
    (address : List Char) (declaration : Option Declaration) : Except PyError Registry :=
  match declaration with
  | none => .ok registry
  | some declaration =>
      er.asyncMigrateEntries registry configEntry (migrate er address (byEntry declaration))

/-! ## The forms of unique ids -/

/-- The ids that rows of a config entry have: the two old forms, of which only buttons carry a
value, the two new ones, the resynchronise button's, and those of other addresses. -/
inductive KnownId (address : List Char) : String → List Char → Prop where
  | oldEntity {domain} (entry : ℕ) : domain ≠ "button" →
      KnownId address domain (address ++ '-' :: Nat.toDigits 10 entry)
  | oldEvent (entry : ℕ) {high low : Char} : (Hex.value? high).isSome → (Hex.value? low).isSome →
      KnownId address "button" (address ++ '-' :: (Nat.toDigits 10 entry ++ ['-', high, low]))
  | newEntity (domain) (entry : ℕ) (objectId : UInt8) :
      KnownId address domain (entityUniqueId address entry objectId)
  | newEvent (domain) (entry : ℕ) (objectId : UInt8) (code : ℕ) :
      KnownId address domain (eventUniqueId address entry objectId code)
  | resync (domain) : KnownId address domain (address ++ "-resync-write-counter".toList)
  | foreign (domain) {uniqueId : List Char} : ¬ (address ++ ['-']) <+: uniqueId →
      KnownId address domain uniqueId

/-- An old id whose entry is declared, and the new id of the same entry, object id and value. -/
inductive Renewed (address : List Char) (declared : ℕ → Option UInt8) :
    String → List Char → List Char → Prop where
  | entity {domain} {entry : ℕ} {objectId : UInt8} : domain ≠ "button" →
      declared entry = some objectId →
      Renewed address declared domain (address ++ '-' :: Nat.toDigits 10 entry)
        (entityUniqueId address entry objectId)
  | event {entry : ℕ} {objectId : UInt8} {high low : Char} {h l : ℕ} :
      declared entry = some objectId → Hex.value? high = some h → Hex.value? low = some l →
      Renewed address declared "button"
        (address ++ '-' :: (Nat.toDigits 10 entry ++ ['-', high, low]))
        (eventUniqueId address entry objectId (16 * h + l))

variable {address : List Char} {declared : ℕ → Option UInt8} {row : RegistryEntry}

/-! ## What the callback makes of them -/

theorem dash_notMem_toDigits (entry : ℕ) : '-' ∉ Nat.toDigits 10 entry := by
  intro hmem
  have hdigit : Char.isDigit '-' = true :=
    Nat.isDigit_of_mem_toDigits (by decide) (by decide) hmem
  exact absurd hdigit (by decide)

theorem isDigits_toDigits (entry : ℕ) : isDigits (Nat.toDigits 10 entry) = true := by
  rw [isDigits, Bool.and_eq_true, decide_eq_true_eq, List.all_eq_true]
  exact ⟨Nat.toDigits_ne_nil, fun c hc => Nat.isDigit_of_mem_toDigits (by decide) (by decide) hc⟩

/-- The parts of an id of this address. -/
theorem prefix_of_rest {rest : List Char} (h : row.uniqueId = address ++ '-' :: rest) :
    (address ++ ['-']) <+: row.uniqueId ∧ row.uniqueId.drop (address.length + 1) = rest := by
  have hsplit : row.uniqueId = (address ++ ['-']) ++ rest := by
    rw [h, List.append_assoc]
    rfl
  constructor
  · exact ⟨rest, hsplit.symm⟩
  · rw [hsplit]
    exact List.drop_left' (by rw [List.length_append]; rfl)

/-- A part that begins with a letter is no number. -/
theorem newUniqueId_of_letter {c : Char} {rest : List Char} (hdash : c ≠ '-')
    (hletter : c.isDigit = false) (h : row.uniqueId = address ++ '-' :: c :: rest) :
    newUniqueId address declared row = .ok none := by
  obtain ⟨hstart, hdrop⟩ := prefix_of_rest h
  have hfirst : ((c :: rest).splitOn '-').headD [] = c :: (rest.splitOn '-').headD [] := by
    rw [List.splitOn_cons_eq_if_modifyHead, if_neg (by simpa using hdash)]
    cases hsplit : rest.splitOn '-' with
    | nil => exact absurd hsplit (List.splitOn_ne_nil '-' rest)
    | cons part parts => rfl
  have hdigits : isDigits (c :: (rest.splitOn '-').headD []) = false := by
    simp [isDigits, hletter]
  rw [newUniqueId, if_neg (not_not_intro hstart)]
  simp only [hdrop, hfirst, hdigits, Bool.not_false, if_true]

theorem newUniqueId_oldEntity {entry : ℕ} (hdomain : row.domain ≠ "button")
    (h : row.uniqueId = address ++ '-' :: Nat.toDigits 10 entry) :
    newUniqueId address declared row =
      .ok ((declared entry).map (entityUniqueId address entry)) := by
  obtain ⟨hstart, hdrop⟩ := prefix_of_rest h
  have hparts : (Nat.toDigits 10 entry).splitOn '-' = [Nat.toDigits 10 entry] :=
    List.splitOn_eq_singleton (dash_notMem_toDigits entry)
  rw [newUniqueId, if_neg (not_not_intro hstart)]
  simp only [hdrop, hparts, List.headD_cons, isDigits_toDigits, Bool.not_true, Bool.false_eq_true,
    if_false, Nat.ofDigitChars_ten_toDigits]
  cases declared entry with
  | none => rfl
  | some objectId => simp [hdomain, pure, Except.pure]

theorem newUniqueId_oldEvent {entry : ℕ} {high low : Char} {n m : ℕ}
    (hdomain : row.domain = "button")
    (h : row.uniqueId = address ++ '-' :: (Nat.toDigits 10 entry ++ ['-', high, low]))
    (hhigh : Hex.value? high = some n) (hlow : Hex.value? low = some m) :
    newUniqueId address declared row =
      .ok ((declared entry).map fun objectId =>
        eventUniqueId address entry objectId (16 * n + m)) := by
  obtain ⟨hstart, hdrop⟩ := prefix_of_rest h
  have hdash : '-' ∉ [high, low] := by
    have hnone : Hex.value? '-' = none := by decide
    rintro (⟨⟩ | ⟨_, ⟨⟩ | ⟨_, ⟨⟩⟩⟩)
    · exact absurd (hnone.symm.trans hhigh) (by simp)
    · exact absurd (hnone.symm.trans hlow) (by simp)
  have hparts : (Nat.toDigits 10 entry ++ ['-', high, low]).splitOn '-' =
      [Nat.toDigits 10 entry, [high, low]] := by
    rw [List.splitOn_append_cons_self_of_not_mem (dash_notMem_toDigits entry),
      List.splitOn_eq_singleton hdash]
  have hcode : intHex [high, low] = .ok (16 * n + m) := by
    simp [intHex, hhigh, hlow]
  rw [newUniqueId, if_neg (not_not_intro hstart)]
  simp only [hdrop, hparts, List.headD_cons, isDigits_toDigits, Bool.not_true, Bool.false_eq_true,
    if_false, Nat.ofDigitChars_ten_toDigits]
  cases declared entry with
  | none => rfl
  | some objectId =>
      simp [hdomain, hcode, bind, Except.bind, pure, Except.pure]

theorem entityUniqueId_eq (address : List Char) (entry : ℕ) (objectId : UInt8) :
    ∃ rest, entityUniqueId address entry objectId = address ++ '-' :: 'e' :: rest :=
  ⟨Nat.toDigits 10 entry ++ '-' :: hexTwo objectId.toNat, by simp [entityUniqueId]⟩

theorem eventUniqueId_eq (address : List Char) (entry : ℕ) (objectId : UInt8) (code : ℕ) :
    ∃ rest, eventUniqueId address entry objectId code = address ++ '-' :: 'e' :: rest :=
  ⟨Nat.toDigits 10 entry ++ '-' :: hexTwo objectId.toNat ++ ['-', 'v'] ++ hexTwo code,
    by simp [eventUniqueId, entityUniqueId]⟩

/-- A new id is left alone. -/
theorem newUniqueId_of_new {rest : List Char} (h : row.uniqueId = address ++ '-' :: 'e' :: rest) :
    newUniqueId address declared row = .ok none :=
  newUniqueId_of_letter (by decide) (by decide) h

/-- Whatever the callback makes is a new id. -/
theorem eq_of_newUniqueId {new : List Char}
    (h : newUniqueId address declared row = .ok (some new)) :
    ∃ rest, new = address ++ '-' :: 'e' :: rest := by
  unfold newUniqueId at h
  split at h
  · simp at h
  · simp only at h
    split at h
    · simp at h
    · split at h
      · simp at h
      · rename_i objectId _
        split at h
        · cases hcode : intHex
              ((List.splitOn '-' (row.uniqueId.drop (address.length + 1))).getD 1 []) with
          | error e =>
              simp only [hcode, bind, Except.bind] at h
              exact absurd h (by simp)
          | ok code =>
              simp only [hcode, bind, Except.bind, pure, Except.pure, Except.ok.injEq,
                Option.some.injEq] at h
              exact h ▸ eventUniqueId_eq address _ objectId code
        · split at h
          · simp only [pure, Except.pure, Except.ok.injEq, Option.some.injEq] at h
            exact h ▸ entityUniqueId_eq address _ objectId
          · simp [pure, Except.pure] at h

/-- An old id whose entry is declared gets the new id of the same entry. -/
theorem newUniqueId_of_renewed {new : List Char}
    (h : Renewed address declared row.domain row.uniqueId new) :
    newUniqueId address declared row = .ok (some new) := by
  generalize hdomain : row.domain = domain at h
  generalize hid : row.uniqueId = uniqueId at h
  cases h with
  | entity hne hdeclared =>
      rw [newUniqueId_oldEntity (hdomain ▸ hne) hid, hdeclared]
      rfl
  | event hdeclared hhigh hlow =>
      rw [newUniqueId_oldEvent hdomain hid hhigh hlow, hdeclared]
      rfl

variable (declared) in
/-- On the known ids the callback never raises, and what it makes renews them. -/
theorem newUniqueId_of_known (h : KnownId address row.domain row.uniqueId) :
    ∃ made, newUniqueId address declared row = .ok made ∧
      ∀ new, made = some new → Renewed address declared row.domain row.uniqueId new := by
  generalize hdomain : row.domain = domain at h
  generalize hid : row.uniqueId = uniqueId at h
  cases h with
  | oldEntity entry hne =>
      refine ⟨_, newUniqueId_oldEntity (hdomain ▸ hne) hid, fun new hnew => ?_⟩
      obtain ⟨objectId, hdeclared, rfl⟩ := Option.map_eq_some_iff.mp hnew
      exact .entity hne hdeclared
  | oldEvent entry hhigh hlow =>
      obtain ⟨n, hn⟩ := Option.isSome_iff_exists.mp hhigh
      obtain ⟨m, hm⟩ := Option.isSome_iff_exists.mp hlow
      refine ⟨_, newUniqueId_oldEvent hdomain hid hn hm, fun new hnew => ?_⟩
      obtain ⟨objectId, hdeclared, rfl⟩ := Option.map_eq_some_iff.mp hnew
      exact .event hdeclared hn hm
  | newEntity _ entry objectId =>
      obtain ⟨rest, hrest⟩ := entityUniqueId_eq address entry objectId
      exact ⟨none, newUniqueId_of_new (hid.trans hrest), by simp⟩
  | newEvent _ entry objectId code =>
      obtain ⟨rest, hrest⟩ := eventUniqueId_eq address entry objectId code
      exact ⟨none, newUniqueId_of_new (hid.trans hrest), by simp⟩
  | resync =>
      exact ⟨none, newUniqueId_of_letter (c := 'r') (by decide) (by decide) hid, by simp⟩
  | foreign _ hforeign =>
      refine ⟨none, ?_, by simp⟩
      rw [newUniqueId, hid, if_pos hforeign]

theorem KnownId.of_renewed {domain : String} {uniqueId new : List Char}
    (h : Renewed address declared domain uniqueId new) : KnownId address domain new := by
  cases h with
  | entity _ _ => exact .newEntity domain _ _
  | event _ _ _ => exact .newEvent _ _ _ _

/-! ## The migration as a round of renamings -/

/-- What the callback makes of a row. -/
def renewed (address : List Char) (declared : ℕ → Option UInt8) (row : RegistryEntry) :
    Option RegistryEntry :=
  match newUniqueId address declared row with
  | .ok (some new) => some { row with uniqueId := new }
  | _ => none

theorem renewed_eq_some {new : RegistryEntry} : renewed address declared row = some new ↔
    ∃ id, newUniqueId address declared row = .ok (some id) ∧ new = { row with uniqueId := id } := by
  unfold renewed
  split
  · rename_i id hid
    constructor
    · rintro ⟨⟩
      exact ⟨id, hid, rfl⟩
    · rintro ⟨id', hid', rfl⟩
      rw [hid] at hid'
      obtain rfl : id = id' := Option.some.inj (Except.ok.inj hid')
      rfl
  · rename_i hnone
    constructor
    · rintro ⟨⟩
    · rintro ⟨id, hid, -⟩
      exact absurd hid (hnone id)

/-- New ids are nobody's wish to leave. -/
theorem settling_renewed (address : List Char) (declared : ℕ → Option UInt8) :
    Renaming.Settling RegistryEntry.identity (renewed address declared) := by
  have hsettled : ∀ {row new other : RegistryEntry}, renewed address declared row = some new →
      other.identity = new.identity → renewed address declared other = none := by
    intro row new other hnew hsame
    obtain ⟨id, hid, rfl⟩ := renewed_eq_some.mp hnew
    obtain ⟨rest, hrest⟩ := eq_of_newUniqueId hid
    simp only [RegistryEntry.identity, Prod.mk.injEq] at hsame
    rw [renewed, newUniqueId_of_new (hsame.2.2.trans hrest)]
  refine ⟨fun {row new} hnew hsame => ?_, hsettled⟩
  rw [hsettled hnew hsame.symm] at hnew
  exact absurd hnew (by simp)

/-- All rows of the config entry have known ids. -/
def AllKnown (address : List Char) (configEntry : String) (registry : Registry) : Prop :=
  ∀ row ∈ registry, row.configEntry = configEntry → KnownId address row.domain row.uniqueId

variable {er : EntityRegistryApi} {registry : Registry} {configEntry : String} {i : ℕ}

/-- A row's turn: the callback and what `async_update_entity` does with its answer. -/
theorem updateRow_eq (her : Documented er)
    (hknown : ∀ row, registry[i]? = some row → KnownId address row.domain row.uniqueId) :
    updateRow (migrate er address declared) registry i =
      .ok (Renaming.turn RegistryEntry.identity (renewed address declared) registry i) := by
  cases hrow : registry[i]? with
  | none =>
      have hnone : registry[i]?.bind (renewed address declared) = none := by rw [hrow]; rfl
      rw [updateRow, hrow, Renaming.turn_of_none hnone]
  | some row =>
      obtain ⟨made, hmade, -⟩ := newUniqueId_of_known declared (hknown row hrow)
      cases made with
      | none =>
          have hnone : registry[i]?.bind (renewed address declared) = none := by
            rw [hrow, Option.bind_some, renewed, hmade]
          rw [Renaming.turn_of_none hnone]
          simp [updateRow, hrow, migrate, hmade, bind, Except.bind, pure, Except.pure]
      | some new =>
          have hsome : registry[i]?.bind (renewed address declared) =
              some { row with uniqueId := new } := by
            rw [hrow, Option.bind_some, renewed, hmade]
          by_cases htaken : (row.domain, row.platform, new) ∈ registry.map RegistryEntry.identity
          · have hfound := (her.getEntityId registry row.domain row.platform new).mpr htaken
            rw [Renaming.turn_of_taken hsome htaken]
            simp [updateRow, hrow, migrate, hmade, hfound, bind, Except.bind, pure, Except.pure]
          · have hfree :
                (er.asyncGetEntityId registry row.domain row.platform new).isSome = false :=
              Bool.eq_false_iff.mpr fun hfound =>
                htaken ((her.getEntityId registry row.domain row.platform new).mp hfound)
            rw [Renaming.turn_of_free hsome htaken]
            simp only [updateRow, hrow, migrate, hmade, hfree, bind, Except.bind, pure, Except.pure,
              Bool.false_eq_true, if_false, if_neg htaken]

/-- A turn renames within the config entry and keeps the ids known. -/
theorem turn_rows (hknown : AllKnown address configEntry registry) {j : ℕ} {row' : RegistryEntry}
    (hrow' : (Renaming.turn RegistryEntry.identity (renewed address declared) registry i)[j]? =
      some row') :
    ∃ row, registry[j]? = some row ∧ row.configEntry = row'.configEntry ∧
      (row'.configEntry = configEntry → KnownId address row'.domain row'.uniqueId) := by
  have hkept : ∀ {row'}, registry[j]? = some row' → ∃ row, registry[j]? = some row ∧
      row.configEntry = row'.configEntry ∧
        (row'.configEntry = configEntry → KnownId address row'.domain row'.uniqueId) :=
    fun {row'} h => ⟨row', h, rfl, hknown row' (List.mem_of_getElem? h)⟩
  cases hwish : registry[i]?.bind (renewed address declared) with
  | none =>
      rw [Renaming.turn_of_none hwish] at hrow'
      exact hkept hrow'
  | some new =>
      by_cases htaken : new.identity ∈ registry.map RegistryEntry.identity
      · rw [Renaming.turn_of_taken hwish htaken] at hrow'
        exact hkept hrow'
      · rw [Renaming.turn_of_free hwish htaken] at hrow'
        by_cases hij : i = j
        · subst hij
          obtain ⟨row, hrow, hnew⟩ := Option.bind_eq_some_iff.mp hwish
          obtain ⟨id, hid, rfl⟩ := renewed_eq_some.mp hnew
          obtain ⟨hlt, -⟩ := List.getElem?_eq_some_iff.mp hrow
          rw [List.getElem?_set_self hlt] at hrow'
          obtain rfl := Option.some.inj hrow'
          refine ⟨row, hrow, rfl, fun hentry => ?_⟩
          obtain ⟨made, hmade, hrenewed⟩ := newUniqueId_of_known declared
            (hknown row (List.mem_of_getElem? hrow) hentry)
          rw [hid] at hmade
          exact .of_renewed (hrenewed id (Except.ok.inj hmade).symm)
        · rw [List.getElem?_set_ne hij] at hrow'
          exact hkept hrow'

theorem mem_rowsOf : i ∈ rowsOf registry configEntry ↔
    ∃ row, registry[i]? = some row ∧ row.configEntry = configEntry := by
  rw [rowsOf, List.mem_filter, List.mem_range, Option.any_eq_true]
  constructor
  · rintro ⟨-, row, hrow, hentry⟩
    exact ⟨row, hrow, of_decide_eq_true hentry⟩
  · rintro ⟨row, hrow, hentry⟩
    exact ⟨(List.getElem?_eq_some_iff.mp hrow).1, row, hrow, decide_eq_true hentry⟩

/-- The rows whose turns come are the config entry's. -/
theorem configEntry_of_mem {order : List ℕ} (horder : order.Perm (rowsOf registry configEntry)) :
    ∀ i ∈ order, ∀ row, registry[i]? = some row → row.configEntry = configEntry := by
  intro i hi row hrow
  obtain ⟨row', hrow', hentry⟩ := mem_rowsOf.mp (horder.mem_iff.mp hi)
  rw [hrow] at hrow'
  obtain rfl := Option.some.inj hrow'
  exact hentry

theorem allKnown_turn (hknown : AllKnown address configEntry registry) :
    AllKnown address configEntry
      (Renaming.turn RegistryEntry.identity (renewed address declared) registry i) := by
  intro row hrow hentry
  obtain ⟨j, hj⟩ := List.getElem?_of_mem hrow
  obtain ⟨-, -, -, hid⟩ := turn_rows hknown hj
  exact hid hentry

/-- The rows of the config entry after a turn had been its rows before. -/
theorem mem_rowsOf_turn (hknown : AllKnown address configEntry registry) {j : ℕ}
    (hj : j ∈ rowsOf (Renaming.turn RegistryEntry.identity (renewed address declared) registry i)
      configEntry) : j ∈ rowsOf registry configEntry := by
  obtain ⟨row', hrow', hentry⟩ := mem_rowsOf.mp hj
  obtain ⟨row, hrow, hsame, -⟩ := turn_rows hknown hrow'
  exact mem_rowsOf.mpr ⟨row, hrow, hsame.trans hentry⟩

/-- Row after row, the migration is a round of renamings. -/
theorem foldlM_updateRow (her : Documented er) (hknown : AllKnown address configEntry registry)
    {order : List ℕ}
    (horder : ∀ i ∈ order, ∀ row, registry[i]? = some row → row.configEntry = configEntry) :
    order.foldlM (updateRow (migrate er address declared)) registry =
        .ok (Renaming.round RegistryEntry.identity (renewed address declared) registry order) ∧
      AllKnown address configEntry
        (Renaming.round RegistryEntry.identity (renewed address declared) registry order) ∧
      ∀ j ∈ rowsOf (Renaming.round RegistryEntry.identity (renewed address declared) registry order)
        configEntry, j ∈ rowsOf registry configEntry := by
  induction order generalizing registry with
  | nil => exact ⟨rfl, hknown, fun j hj => hj⟩
  | cons i order ih =>
      have hturn : updateRow (migrate er address declared) registry i =
          .ok (Renaming.turn RegistryEntry.identity (renewed address declared) registry i) :=
        updateRow_eq her fun row hrow => hknown row (List.mem_of_getElem? hrow)
          (horder i List.mem_cons_self row hrow)
      have hlater : ∀ j ∈ order, ∀ row,
          (Renaming.turn RegistryEntry.identity (renewed address declared) registry i)[j]? =
            some row → row.configEntry = configEntry := by
        intro j hj row hrow
        obtain ⟨before, hbefore, hsame, -⟩ := turn_rows hknown hrow
        exact hsame ▸ horder j (List.mem_cons_of_mem i hj) before hbefore
      obtain ⟨hfold, hall, hrows⟩ := ih (allKnown_turn hknown) hlater
      refine ⟨?_, hall, fun j hj => mem_rowsOf_turn hknown (hrows j hj)⟩
      rw [List.foldlM_cons, hturn]
      exact hfold

/-- What the declaration says of each entry. -/
def declaredBy (declaration : Option Declaration) (entry : ℕ) : Option UInt8 :=
  declaration.bind fun declaration => byEntry declaration entry

/-- What the migration makes of the row at `i`. -/
structure Carried (address : List Char) (declaration : Option Declaration) (configEntry : String)
    (registry registry' : Registry) (i : ℕ) (row : RegistryEntry) : Prop where
  /-- An old id of a declared entry becomes the new one where it is free. -/
  renewed : row.configEntry = configEntry → ∀ new,
    Renewed address (declaredBy declaration) row.domain row.uniqueId new →
      ¬ Renaming.Taken RegistryEntry.identity registry' i (row.domain, row.platform, new) →
        registry'[i]? = some { row with uniqueId := new }
  /-- Where another row has the new identity the old id stays. -/
  taken : row.configEntry = configEntry → ∀ new,
    Renewed address (declaredBy declaration) row.domain row.uniqueId new →
      Renaming.Taken RegistryEntry.identity registry' i (row.domain, row.platform, new) →
        registry'[i]? = some row
  /-- An identity that was taken before is. -/
  before : row.configEntry = configEntry → ∀ new,
    Renewed address (declaredBy declaration) row.domain row.uniqueId new →
      Renaming.Taken RegistryEntry.identity registry i (row.domain, row.platform, new) →
        Renaming.Taken RegistryEntry.identity registry' i (row.domain, row.platform, new)
  /-- Every other row stays. -/
  others : (row.configEntry = configEntry → ∀ new,
      ¬ Renewed address (declaredBy declaration) row.domain row.uniqueId new) →
    registry'[i]? = some row

theorem renewed_of_renewed {new : List Char}
    (h : Renewed address declared row.domain row.uniqueId new) :
    renewed address declared row = some { row with uniqueId := new } :=
  renewed_eq_some.mpr ⟨new, newUniqueId_of_renewed h, rfl⟩

theorem renewed_eq_none (hknown : KnownId address row.domain row.uniqueId)
    (hnone : ∀ new, ¬ Renewed address declared row.domain row.uniqueId new) :
    renewed address declared row = none := by
  obtain ⟨made, hmade, hrenewed⟩ := newUniqueId_of_known declared hknown
  cases made with
  | none => rw [renewed, hmade]
  | some new => exact absurd (hrenewed new rfl) (hnone new)

/-- A round over the rows of the config entry. -/
theorem carried_round (declaration : Declaration)
    (hdistinct : (registry.map RegistryEntry.identity).Nodup)
    (hknown : AllKnown address configEntry registry) {order : List ℕ}
    (horder : order.Perm (rowsOf registry configEntry)) (hrow : registry[i]? = some row) :
    Carried address (some declaration) configEntry registry
      (Renaming.round RegistryEntry.identity (renewed address (byEntry declaration)) registry order)
      i row := by
  have hs := settling_renewed address (byEntry declaration)
  have hnodup : order.Nodup := horder.nodup_iff.mpr (List.nodup_range.filter _)
  have hmine : row.configEntry = configEntry → i ∈ order := fun hentry =>
    horder.mem_iff.mpr (mem_rowsOf.mpr ⟨row, hrow, hentry⟩)
  refine ⟨fun hentry new hnew hfree => ?_, fun hentry new hnew htaken => ?_,
    fun hentry new hnew htaken => ?_, fun hnone => ?_⟩
  · rcases Renaming.getElem?_round hs hnodup (hmine hentry) hrow (renewed_of_renewed hnew) with
      hgranted | ⟨-, htaken⟩
    · exact hgranted
    · exact absurd htaken hfree
  · rcases Renaming.getElem?_round hs hnodup (hmine hentry) hrow (renewed_of_renewed hnew) with
      hgranted | ⟨hsame, -⟩
    · exact absurd htaken (Renaming.not_taken_self (Renaming.nodup_round hdistinct) hgranted)
    · exact hsame
  · exact Renaming.Taken.round hs (renewed_of_renewed hnew) htaken
  · by_cases hentry : row.configEntry = configEntry
    · exact Renaming.getElem?_round_settled hrow
        (renewed_eq_none (hknown row (List.mem_of_getElem? hrow) hentry) (hnone hentry))
    · have houtside : i ∉ order := fun hi => hentry (configEntry_of_mem horder i hi row hrow)
      exact (Renaming.getElem?_round_outside houtside).trans hrow

/-- **The migration of unique ids is safe and complete.** -/
theorem migration_safe (her : Documented er) (declaration : Option Declaration)
    (hdistinct : (registry.map RegistryEntry.identity).Nodup)
    (hknown : AllKnown address configEntry registry) :
    ∃ registry', migrateUniqueIds er registry configEntry address declaration = .ok registry' ∧
      registry'.length = registry.length ∧
      (registry'.map RegistryEntry.identity).Nodup ∧
      (∀ i row, registry[i]? = some row →
        Carried address declaration configEntry registry registry' i row) ∧
      migrateUniqueIds er registry' configEntry address declaration = .ok registry' := by
  cases declaration with
  | none =>
      have hnone : ∀ {domain uniqueId new},
          ¬ Renewed address (declaredBy none) domain uniqueId new := by
        rintro _ _ _ (⟨_, ⟨⟩⟩ | ⟨⟨⟩, _, _⟩)
      exact ⟨registry, rfl, rfl, hdistinct, fun i row hrow =>
        ⟨fun _ new hnew => absurd hnew hnone, fun _ new hnew => absurd hnew hnone,
          fun _ new hnew => absurd hnew hnone, fun _ => hrow⟩, rfl⟩
  | some declaration =>
      obtain ⟨order, horder, hmigrate⟩ :=
        her.rowByRow registry configEntry (migrate er address (byEntry declaration))
      have hnodup : order.Nodup := horder.nodup_iff.mpr (List.nodup_range.filter _)
      obtain ⟨hround, hknown', hrows⟩ := foldlM_updateRow her hknown (configEntry_of_mem horder)
      refine ⟨_, hmigrate.trans hround, Renaming.length_round registry order,
        Renaming.nodup_round hdistinct,
        fun i row hrow => carried_round declaration hdistinct hknown horder hrow, ?_⟩
      -- the second time, in whatever order
      obtain ⟨again, hagain, hmigrate'⟩ := her.rowByRow
        (Renaming.round RegistryEntry.identity (renewed address (byEntry declaration)) registry
          order)
        configEntry (migrate er address (byEntry declaration))
      obtain ⟨hround', -⟩ : again.foldlM (updateRow (migrate er address (byEntry declaration))) _ =
          .ok (Renaming.round RegistryEntry.identity (renewed address (byEntry declaration)) _
            again) ∧ _ := foldlM_updateRow her hknown' (configEntry_of_mem hagain)
      rw [Renaming.round_round (settling_renewed address (byEntry declaration)) hnodup
        fun i hi => horder.mem_iff.mpr (hrows i (hagain.mem_iff.mp hi))] at hround'
      exact hmigrate'.trans hround'

/-- A registry that does what it is documented to do, row by row from the first. -/
def plainRegistry : EntityRegistryApi where
  asyncGetEntityId registry domain platform uniqueId :=
    registry.findIdx? fun row => row.identity = (domain, platform, uniqueId)
  asyncMigrateEntries registry configEntry callback :=
    (rowsOf registry configEntry).foldlM (updateRow callback) registry

theorem plainRegistry_documented : Documented plainRegistry where
  getEntityId registry domain platform uniqueId := by
    show (registry.findIdx? fun row => row.identity = (domain, platform, uniqueId)).isSome ↔ _
    rw [List.findIdx?_isSome, List.any_eq_true, List.mem_map]
    constructor
    · rintro ⟨row, hrow, hid⟩
      exact ⟨row, hrow, of_decide_eq_true hid⟩
    · rintro ⟨row, hrow, hid⟩
      exact ⟨row, hrow, decide_eq_true hid⟩
  rowByRow registry configEntry callback := ⟨_, List.Perm.refl _, rfl⟩

/-- A switch that is carried over, a leftover whose new identity is taken, and a button. -/
def oldRows : Registry :=
  [⟨"c1", "switch", "bthome_writable", "A4:C1:38-1".toList⟩,
    ⟨"c1", "number", "bthome_writable", "A4:C1:38-e2-51".toList⟩,
    ⟨"c1", "number", "bthome_writable", "A4:C1:38-2".toList⟩,
    ⟨"c1", "button", "bthome_writable", "A4:C1:38-3-0A".toList⟩]

theorem oldRows_known : AllKnown "A4:C1:38".toList "c1" oldRows := by
  intro row hrow _
  rcases List.mem_cons.mp hrow with rfl | hrow
  · exact .oldEntity 1 (by decide)
  rcases List.mem_cons.mp hrow with rfl | hrow
  · exact .newEntity "number" 2 0x51
  rcases List.mem_cons.mp hrow with rfl | hrow
  · exact .oldEntity 2 (by decide)
  obtain rfl := List.mem_singleton.mp hrow
  exact @KnownId.oldEvent _ 3 '0' 'A' (by decide) (by decide)

theorem migration_safe_oldRows :
    ∃ registry', migrateUniqueIds plainRegistry oldRows "c1" "A4:C1:38".toList
        (some ⟨[⟨1, 0x1E⟩, ⟨2, 0x51⟩, ⟨3, 0x3A⟩], none⟩) = .ok registry' ∧
      (registry'.map RegistryEntry.identity).Nodup := by
  obtain ⟨registry', hmigrate, -, hdistinct, -, -⟩ := migration_safe plainRegistry_documented
    (some ⟨[⟨1, 0x1E⟩, ⟨2, 0x51⟩, ⟨3, 0x3A⟩], none⟩) (by decide) oldRows_known
  exact ⟨registry', hmigrate, hdistinct⟩

/-- What becomes of them. -/
example : (migrateUniqueIds plainRegistry oldRows "c1" "A4:C1:38".toList
    (some ⟨[⟨1, 0x1E⟩, ⟨2, 0x51⟩, ⟨3, 0x3A⟩], none⟩)).map (·.map RegistryEntry.uniqueId) =
      .ok ["A4:C1:38-e1-1e".toList, "A4:C1:38-e2-51".toList, "A4:C1:38-2".toList,
        "A4:C1:38-e3-3a-v0a".toList] := by
  decide

end BTHomeWritable.Receiver
