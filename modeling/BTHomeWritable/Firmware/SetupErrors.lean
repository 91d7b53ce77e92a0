import BTHomeWritable.Firmware.Plans

/-!
# How far a `setup()` comes

A `setup()` that throws `advertising_rejected` has thrown it while publishing:
nothing before that throws an error with this code.  It has therefore done
what it does last, as one that returned has.

`Unrejected` says it of an error.  `buildNext_unrejected` goes down through the
planning, whose errors are its own or those of the code it calls;
`claim_throws` is the part after the swap, where `ask` only throws what is
foreign.  `setup_attends` then takes a `setup()` apart that returned or was
rejected.
-/

namespace BTHomeWritable.Firmware

open Device Throwing

variable {env : Env}

/-! ## `buildNext` -/

/-- The error is not the one of a packet that the radio refused. -/
def Unrejected (e : JsError) : Prop := e.code ≠ some .advertisingRejected

theorem unrejected_foreign (f : Foreign) : Unrejected f.error := by
  cases f with
  | mk code message => cases code <;> simp [Unrejected, Foreign.error]

theorem unrejected_mapError {α : Type} {x : Except Foreign α} {e : JsError}
    (h : x.mapError Foreign.error = .error e) : Unrejected e := by
  cases x with
  | error f =>
      obtain rfl := Except.error.inj h
      exact unrejected_foreign f
  | ok a => cases h

section Planning

variable {enc : Entry → Probe → Except JsError Obj} {read : ℕ → Except JsError Obj}
  (henc : ∀ e p x, enc e p = .error x → Unrejected x)
  (hread : ∀ i x, read i = .error x → Unrejected x)

include henc in
theorem writableSpec_unrejected {e : Entry} {k : ℕ} {x : JsError}
    (h : writableSpec enc e k = .error x) : Unrejected x := by
  unfold writableSpec at h
  cases hid : e.id with
  | some id =>
      rw [hid] at h
      simp only at h
      split at h
      · obtain rfl := Except.error.inj h
        simp [Unrejected, err]
      · split at h
        · obtain rfl := Except.error.inj h
          simp [Unrejected, err]
        · cases h
  | none =>
      rw [hid] at h
      simp only at h
      split at h
      · cases hprobe : enc e .empty with
        | error y =>
            rw [hprobe] at h
            obtain rfl := Except.error.inj h
            exact henc _ _ _ hprobe
        | ok o =>
            rw [hprobe] at h
            cases h
      · split at h
        · obtain rfl := Except.error.inj h
          simp [Unrejected, err]
        · obtain rfl := Except.error.inj h
          simp [Unrejected, err]
        · split at h
          · obtain rfl := Except.error.inj h
            simp [Unrejected, err]
          · split at h
            · cases h
            · split at h <;> cases h

include henc hread in
theorem planEntries_unrejected {every : ℕ} {rest : List Entry} {i : ℕ} {sensors : List Sensor}
    {writable : List Writable} {x : JsError}
    (h : planEntries enc read every rest i sensors writable = .error x) : Unrejected x := by
  induction rest generalizing i sensors writable with
  | nil => cases h
  | cons e rest ih =>
      unfold planEntries at h
      split at h
      · obtain rfl := Except.error.inj h
        simp [Unrejected, err]
      split at h
      · cases hspec : writableSpec enc e (writable.length + 1) with
        | error y =>
            rw [hspec] at h
            obtain rfl := Except.error.inj h
            exact writableSpec_unrejected henc hspec
        | ok spec =>
            rw [hspec] at h
            exact ih h
      · cases hfound : read i with
        | error y =>
            rw [hfound] at h
            obtain rfl := Except.error.inj h
            exact hread _ _ hfound
        | ok b =>
            rw [hfound] at h
            exact ih h

theorem buildServiceData_unrejected {info : UInt8} {objs : List Obj} {decl : Option Bytes}
    {budget : ℤ} {x : JsError} (h : buildServiceData info objs decl budget = .error x) :
    Unrejected x := by
  unfold buildServiceData at h
  dsimp only at h
  split at h
  · obtain rfl := Except.error.inj h
    simp [Unrejected, err]
  · cases h

include henc hread in
theorem planPacket_unrejected {entries : List Entry} {defRead : Option ℕ} {encrypted : Bool}
    {limit : Option ℤ} {x : JsError}
    (h : planPacket enc read entries defRead encrypted limit = .error x) : Unrejected x := by
  unfold planPacket at h
  cases hentries : planEntries enc read (defRead.getD 0) entries 0 [] [] with
  | error y =>
      rw [hentries] at h
      obtain rfl := Except.error.inj h
      exact planEntries_unrejected henc hread hentries
  | ok found =>
      rw [hentries] at h
      simp only at h
      split at h
      · rename_i y hdecl
        obtain rfl := Except.error.inj h
        split at hdecl
        · cases hdecl
        · unfold encodeDeclaration at hdecl
          split at hdecl
          · obtain rfl := Except.error.inj hdecl
            simp [Unrejected, err]
          · split at hdecl
            · obtain rfl := Except.error.inj hdecl
              simp [Unrejected, err]
            · cases hdecl
      · split at h
        · rename_i y hrender
          obtain rfl := Except.error.inj h
          exact buildServiceData_unrejected (congrArg Prod.snd hrender)
        · cases h

end Planning

theorem checkInterval_unrejected {option : String} {v : ℤ} {x : JsError}
    (h : checkInterval option v = .error x) : Unrejected x := by
  unfold checkInterval at h
  split at h
  · obtain rfl := Except.error.inj h
    simp [Unrejected, err]
  · cases h

theorem toKey_unrejected {key : Option Bindkey} {x : JsError} (h : toKey key = .error x) :
    Unrejected x := by
  have herr : ∀ (code : ErrCode) (message : String), code ≠ .advertisingRejected →
      Unrejected (err code message) := by
    intro code message hcode
    simpa [Unrejected, err] using hcode
  unfold toKey at h
  split at h
  · cases h
  · split at h
    · obtain rfl := Except.error.inj h
      exact herr _ _ (by decide)
    · cases h
  · split at h
    · obtain rfl := Except.error.inj h
      exact herr _ _ (by decide)
    · split at h
      · obtain rfl := Except.error.inj h
        exact herr _ _ (by decide)
      · cases h

theorem buildNext_unrejected {opts : SetupOpts} {object : ℕ} {o : Outside} {x : JsError}
    (h : buildNext env opts object o = .error x) : Unrejected x := by
  simp only [buildNext, bind, Except.bind] at h
  cases hinterval : checkInterval "interval" (orElse opts.interval 2000) with
  | error y =>
      simp only [hinterval] at h
      obtain rfl := Except.error.inj h
      exact checkInterval_unrejected hinterval
  | ok iv =>
  cases hkey : toKey opts.bindkey with
  | error y =>
      simp only [hinterval, hkey] at h
      obtain rfl := Except.error.inj h
      exact toKey_unrejected hkey
  | ok key =>
  cases hmarks : resumedMarks env key o with
  | error y =>
      simp only [hinterval, hkey, hmarks] at h
      obtain rfl := Except.error.inj h
      unfold resumedMarks at hmarks
      split at hmarks
      · split at hmarks
        · obtain rfl := Except.error.inj hmarks
          exact unrejected_foreign _
        · cases hmarks
      · cases hmarks
  | ok marks =>
  cases hplan : planPacket env.encoder (env.reading (o.calls + 1)) opts.advertise
      (some iv.toNat) key.isSome opts.maxServiceData with
  | error y =>
      simp only [hinterval, hkey, hmarks, hplan] at h
      obtain rfl := Except.error.inj h
      exact planPacket_unrejected (fun _ _ _ => unrejected_mapError)
        (fun _ _ => unrejected_mapError) hplan
  | ok plan =>
  cases hfast : checkInterval "fastInterval" (orElse opts.fastInterval 100) with
  | error y =>
      simp only [hinterval, hkey, hmarks, hplan, hfast] at h
      obtain rfl := Except.error.inj h
      exact checkInterval_unrejected hfast
  | ok fast =>
      simp only [hinterval, hkey, hmarks, hplan, hfast] at h
      cases h

/-! ## `install` -/

theorem ask_throws (call : Call) : OnlyThrows Unrejected (ask env call) := by
  intro w e u h
  cases hcall : env.throws w.calls call with
  | none =>
      rw [ask_of_none hcall] at h
      cases h
  | some f =>
      rw [ask_of_some hcall] at h
      obtain ⟨rfl, -⟩ := EStateM.Result.error.inj h
      exact unrejected_foreign f

theorem saveMarks_throws : OnlyThrows Unrejected (saveMarks env) :=
  (ask_throws _).bind fun _ => OnlyThrows.update _

theorem sealUnder_throws (pt : Bytes) (info : UInt8) :
    OnlyThrows Unrejected (sealUnder env pt info) := by
  refine OnlyThrows.bind (OnlyThrows.look _) fun w => ?_
  refine OnlyThrows.bind (OnlyThrows.update _) fun _ => ?_
  refine OnlyThrows.bind ?_ fun _ => OnlyThrows.bind (ask_throws _) fun _ => ?_
  · refine OnlyThrows.bind (OnlyThrows.look _) fun w => OnlyThrows.doIf ?_
    exact (OnlyThrows.update _).bind fun _ => saveMarks_throws
  · split
    · exact OnlyThrows.throw (by simp [Unrejected, typeError])
    · exact OnlyThrows.pure _

theorem readValue_throws (writable : Writable) :
    OnlyThrows Unrejected (readValue env writable) := by
  have htype : Unrejected typeError := by simp [Unrejected, typeError]
  refine OnlyThrows.bind (OnlyThrows.look _) fun w => ?_
  split
  · exact OnlyThrows.throw htype
  · split
    · exact OnlyThrows.throw htype
    · refine OnlyThrows.bind (OnlyThrows.update _) fun _ => ?_
      cases hread : env.reading w.calls writable.entryIndex with
      | error x => exact OnlyThrows.throw (unrejected_mapError hread)
      | ok o =>
          dsimp only
          split
          · exact sealUnder_throws _ _
          · exact OnlyThrows.pure _

theorem readValues_throws (writables : List Writable) :
    OnlyThrows Unrejected (readValues env writables) := by
  induction writables with
  | nil => exact OnlyThrows.pure []
  | cons writable rest ih =>
      unfold readValues
      split
      · exact (readValue_throws writable).bind fun _ => ih.bind fun _ => OnlyThrows.pure _
      · exact ih

theorem claim_throws (opts : SetupOpts) : OnlyThrows Unrejected (claim env opts) := by
  refine OnlyThrows.bind (OnlyThrows.look _) fun w => ?_
  refine OnlyThrows.bind (OnlyThrows.doIf saveMarks_throws) fun _ => OnlyThrows.doIf ?_
  exact (readValues_throws _).bind fun _ => (ask_throws _).bind fun _ => OnlyThrows.update _

/-- A `setup()` that returned or threw because of a refused packet has come as far as publishing,
and has done after it what it always does. -/
theorem setup_attends {opts : SetupOpts} {b b' : Board}
    (h : setup env opts b = .ok () b' ∨
      ∃ e, setup env opts b = .error e b' ∧ e.code = some .advertisingRejected) :
    ∃ next v, buildNext env opts b.nextObject b.toOutside = .ok next ∧
      claim env opts (b.swap next) = .ok () v ∧
      b' = (left (attend env) (left (refreshAdvertising env false) v)).board := by
  have hleft : left (setup env opts) b = b' := by
    rcases h with h | ⟨e, h, -⟩
    · exact left_ok h
    · exact left_error h
  have herror : ∀ e u, setup env opts b = .error e u → ¬ Unrejected e := by
    intro e u hrun hun
    rcases h with h | ⟨e', h, hcode⟩
    · rw [h] at hrun
      cases hrun
    · rw [h] at hrun
      obtain ⟨rfl, -⟩ := EStateM.Result.error.inj hrun
      exact hun hcode
  -- whatever throws before publishing throws another error, against `h`
  cases hnext : buildNext env opts b.nextObject b.toOutside with
  | error e =>
      refine absurd (buildNext_unrejected hnext) (herror e { b with calls := b.calls + 3 } ?_)
      simp only [setup, hnext]
  | ok next =>
      cases hclaim : claim env opts (b.swap next) with
      | error e u =>
          have hinstall : install env opts (b.swap next) = .error e u := by
            rw [install_eq]
            exact bind_of_error hclaim
          refine absurd (claim_throws opts _ e u hclaim) (herror e u.board ?_)
          simp only [setup, hnext, hinstall]
      | ok a v =>
          refine ⟨next, v, rfl, hclaim, ?_⟩
          have hinstall : left (install env opts) (b.swap next) =
              left (attend env) (left (refreshAdvertising env false) v) := by
            rw [install_eq, left_bind_of_ok hclaim, left_always]
          rw [← hleft, ← hinstall, left_setup_of_ok hnext]

end BTHomeWritable.Firmware
