import BTHomeWritable.Device.Plan
import BTHomeWritable.Lib.Runs

/-!
# What a plan keeps

`planPacket` fixes which objects a packet is made of and in which order;
rendering moves readings, the packet id and the revision, and nothing else.
`PlanInv` says this for a plan that has been rendered any number of times, under
an encoder whose objects satisfy a predicate `Good` and whose ids stay.

* `planEntries_sifted`: going through the entries sorts them into sensors and
  writables, each in its place (`Sifted`), and every writable has the spec that
  `writableSpec` finds for its entry (`Specified`).
* `planInv_draft`: the plan before it is first rendered meets the invariant.
  That its slots are in the order of their ids is what a stable sort gives
  (`placed_of_isStableSort`).
* `PlanInv.render`: rendering keeps it.  A pass over the readings changes no
  `Sensor.place` (`place_reread`), and every new reading is `Good`
  (`PlanInv.good_reread`); `PlanInv.congr` is all that rendering needs.

`planInv_planPacket` is the result for a plan as `planPacket` returns it.
-/

namespace BTHomeWritable.Device

/-- Entry `i` is advertised, not written. -/
def IsSensor (entries : List Entry) (i : ℕ) : Bool := (entries[i]?).any fun e => !e.hasSet

/-- Entry `i` is written, not advertised. -/
def IsWritable (entries : List Entry) (i : ℕ) : Bool := (entries[i]?).any fun e => e.hasSet

/-- The encoder gives every advertised entry an object of its own id that is `Good`. -/
def Encodes (Good : Obj → Prop) (entries : List Entry) (ids : ℕ → UInt8)
    (read : ℕ → Except JsError Obj) : Prop :=
  ∀ i, IsSensor entries i → ∃ o, read i = .ok o ∧ o.id = ids i ∧ Good o

/-- Where a sensor stands: its object id and its place among the entries. -/
def Sensor.place (it : Sensor) : UInt8 × ℕ := (it.id, it.entryIndex)

/-- Ascending ids, and ascending entries within an id. -/
def PlacedBefore (a b : UInt8 × ℕ) : Prop :=
  a.1.toNat < b.1.toNat ∨ (a.1.toNat = b.1.toNat ∧ a.2 < b.2)

variable {Good : Obj → Prop} {entries : List Entry} {ids : ℕ → UInt8}
  {enc : Entry → Probe → Except JsError Obj} {read : ℕ → Except JsError Obj}

/-! ## Planning -/

/-- A writable entry as `writableSpec` describes it. -/
def Specified (enc : Entry → Probe → Except JsError Obj) (entries : List Entry) (w : Writable) :
    Prop :=
  ∃ e, entries[w.entryIndex]? = some e ∧ writableSpec enc e w.entry = .ok w.spec ∧
    w.readable = e.hasGet

/-- The sensors and writable entries found among the first `i` entries. -/
structure Sifted (Good : Obj → Prop) (enc : Entry → Probe → Except JsError Obj)
    (entries : List Entry) (ids : ℕ → UInt8) (i : ℕ) (sensors : List Sensor)
    (writable : List Writable) : Prop where
  sensor_indices : sensors.map Sensor.entryIndex = (List.range i).filter (IsSensor entries)
  good : ∀ it ∈ sensors, it.id = ids it.entryIndex ∧ Good it.obj
  writable_indices : writable.map Writable.entryIndex =
    (List.range i).filter (IsWritable entries)
  specified : ∀ w ∈ writable, Specified enc entries w

theorem planEntries_sifted {defRead : ℕ} (hread : Encodes Good entries ids read)
    {rest : List Entry} {i : ℕ} {sensors sensors' : List Sensor}
    {writable writable' : List Writable} (hrest : entries.drop i = rest)
    (h : Sifted Good enc entries ids i sensors writable)
    (hrun : planEntries enc read defRead rest i sensors writable = .ok (sensors', writable')) :
    Sifted Good enc entries ids (i + rest.length) sensors' writable' := by
  induction rest generalizing i sensors writable with
  | nil =>
      obtain ⟨rfl, rfl⟩ : sensors = sensors' ∧ writable = writable' := by
        simpa [planEntries] using hrun
      exact h
  | cons e rest ih =>
      -- the entry at hand is the `i`th, and what is left begins one further on
      have hentry : entries[i]? = some e := by
        have hget : (entries.drop i)[0]? = entries[i]? := List.getElem?_drop
        rw [← hget, hrest]
        rfl
      have hnext : entries.drop (i + 1) = rest := by
        rw [← List.drop_drop, hrest]
        rfl
      rw [List.length_cons, Nat.add_comm rest.length, ← Nat.add_assoc]
      unfold planEntries at hrun
      by_cases haccess : (!e.hasSet && !e.hasGet) = true
      · rw [if_pos haccess] at hrun
        exact absurd hrun (by simp)
      rw [if_neg haccess] at hrun
      cases hset : e.hasSet with
      | true =>
          have hwritable : IsWritable entries i = true := by simp [IsWritable, hentry, hset]
          have hsensor : IsSensor entries i = false := by simp [IsSensor, hentry, hset]
          rw [if_pos hset] at hrun
          cases hspec : writableSpec enc e (writable.length + 1) with
          | error x =>
              rw [hspec] at hrun
              exact absurd hrun (by simp)
          | ok spec =>
              rw [hspec] at hrun
              refine ih hnext ?_ hrun
              refine
                { sensor_indices := by simp [List.range_succ, h.sensor_indices, hsensor]
                  good := h.good
                  writable_indices := by simp [List.range_succ, h.writable_indices, hwritable]
                  specified := Runs.forall_mem_concat.mpr ⟨h.specified, ?_⟩ }
              exact ⟨e, hentry, hspec, rfl⟩
      | false =>
          have hwritable : IsWritable entries i = false := by simp [IsWritable, hentry, hset]
          have hsensor : IsSensor entries i = true := by simp [IsSensor, hentry, hset]
          obtain ⟨o, hreading, hid, hgood⟩ := hread i hsensor
          rw [if_neg (by simp [hset]), hreading] at hrun
          refine ih hnext ?_ hrun
          exact
            { sensor_indices := by simp [List.range_succ, h.sensor_indices, hsensor]
              good := Runs.forall_mem_concat.mpr ⟨h.good, hid, hgood⟩
              writable_indices := by simp [List.range_succ, h.writable_indices, hwritable]
              specified := h.specified }

/-! ## The invariant -/

structure PlanInv (Good : Obj → Prop) (enc : Entry → Probe → Except JsError Obj)
    (entries : List Entry) (ids : ℕ → UInt8) (encrypted : Bool) (limit : ℤ) (p : Plan) :
    Prop where
  placed : (p.ordered.map Sensor.place).Pairwise PlacedBefore
  indices : (p.ordered.map Sensor.entryIndex).Perm
    ((List.range entries.length).filter (IsSensor entries))
  good : ∀ it ∈ p.ordered, it.id = ids it.entryIndex ∧ Good it.obj
  writable : p.writable.map Writable.entryIndex =
    (List.range entries.length).filter (IsWritable entries)
  specified : ∀ w ∈ p.writable, Specified enc entries w
  count : p.writable.length ≤ 255
  decl : p.decl = if p.writable = [] then none else
    some (DECL_ID :: UInt8.ofNat p.writable.length :: p.writable.map (·.spec.id))
  rev : p.rev.isSome = p.writable.any (·.readable)
  objs : p.objs = stableSortByObjectId (fun slot => (p.object slot).id)
    (slots p.ordered.length (p.writable.any (·.readable)))
  budget : p.budget = limit - if encrypted then ENC_OVERHEAD else 0

theorem placed_of_isStableSort {sensors : List Sensor}
    (hascending : (sensors.map Sensor.entryIndex).Pairwise (· < ·)) :
    ((stableSortByObjectId Sensor.id sensors).map Sensor.place).Pairwise PlacedBefore := by
  rw [List.pairwise_map] at hascending ⊢
  exact (StableSort.isStableSort_sort sensors).pairwise hascending

/-- A plan is nothing but its places to the objects' ids. -/
theorem object_id_congr {p p' : Plan}
    (h : p'.ordered.map Sensor.place = p.ordered.map Sensor.place) (slot : Slot) :
    (p'.object slot).id = (p.object slot).id := by
  cases slot with
  | pkt => rfl
  | rev => rfl
  | sensor i =>
      have hplace : ∀ q : Plan, (q.object (.sensor i)).id =
          ((q.ordered.map Sensor.place).getD i (Sensor.place default)).1 := by
        intro q
        simp only [Plan.object, List.getD_eq_getElem?_getD, List.getElem?_map]
        cases q.ordered[i]? <;> rfl
      rw [hplace, hplace, h]

/-! ## Rendering -/

/-- An entry after a read pass: read anew if it was due, left alone if it was not. -/
def refreshed (read : ℕ → Except JsError Obj) (now : ℤ) (it : Sensor) : Sensor :=
  if it.readInterval ≠ 0 ∧ now - it.lastRead < it.readInterval then it
  else
    match read it.entryIndex with
    | .ok o => { it with lastRead := now, value := o.value }
    | .error _ => it

/-- Under an encoder that keeps its ids, no read throws and only values move. -/
theorem readDue_spec {now : ℤ} {sensors : List Sensor}
    (hread : ∀ it ∈ sensors, ∃ o, read it.entryIndex = .ok o ∧ o.id = it.id ∧ Good o) :
    ∃ moved, readDue read now sensors = (sensors.map (refreshed read now), .ok moved) := by
  induction sensors with
  | nil => exact ⟨false, rfl⟩
  | cons it rest ih =>
      obtain ⟨movedRest, hrest⟩ := ih fun it' hit' => hread it' (List.mem_cons_of_mem _ hit')
      obtain ⟨o, ho, hid, -⟩ := hread it (by simp)
      unfold readDue
      by_cases hdue : it.readInterval ≠ 0 ∧ now - it.lastRead < it.readInterval
      · rw [if_pos hdue, hrest]
        exact ⟨movedRest, by simp only [List.map_cons, refreshed, if_pos hdue]⟩
      · have hhead : refreshed read now it = { it with lastRead := now, value := o.value } := by
          simp only [refreshed, if_neg hdue, ho]
        rw [if_neg hdue, List.map_cons, hhead]
        unfold readSensor
        simp only [ho, hid, ne_eq, not_true_eq_false, if_false]
        by_cases hsame : it.value = o.value
        · rw [if_pos hsame]
          exact ⟨movedRest, by simp [hrest, Except.map, hsame]⟩
        · rw [if_neg hsame]
          exact ⟨true, by simp [hrest, Except.map]⟩

theorem place_refreshed (now : ℤ) (it : Sensor) : (refreshed read now it).place = it.place := by
  unfold refreshed
  split
  · rfl
  · split <;> rfl

theorem good_refreshed {now : ℤ} {it : Sensor} (hgood : Good it.obj)
    (hread : ∃ o, read it.entryIndex = .ok o ∧ o.id = it.id ∧ Good o) :
    Good (refreshed read now it).obj := by
  obtain ⟨o, ho, hid, hgoodO⟩ := hread
  unfold refreshed
  split
  · exact hgood
  · simp only [ho]
    have hobj : Sensor.obj { it with lastRead := now, value := o.value } = o := by
      simp [Sensor.obj, ← hid]
    rw [hobj]
    exact hgoodO

variable {encrypted : Bool} {limit : ℤ} {p : Plan}

/-- The packet id, the revision and the readings may move. -/
theorem PlanInv.congr (h : PlanInv Good enc entries ids encrypted limit p) {pkt : UInt8}
    {rev : Option UInt8} {ordered : List Sensor} (hrev : rev.isSome = p.rev.isSome)
    (hplace : ordered.map Sensor.place = p.ordered.map Sensor.place)
    (hgood : ∀ it ∈ ordered, Good it.obj) :
    PlanInv Good enc entries ids encrypted limit
      { p with pkt := pkt, rev := rev, ordered := ordered } := by
  have hlength : ordered.length = p.ordered.length := by
    simpa using congrArg List.length hplace
  have hindices : ordered.map Sensor.entryIndex = p.ordered.map Sensor.entryIndex := by
    have hsnd := congrArg (List.map Prod.snd) hplace
    simpa [Sensor.place, Function.comp_def] using hsnd
  -- an id is kept with the place
  have hids : ∀ it ∈ ordered, it.id = ids it.entryIndex := by
    intro it hit
    have hmem : it.place ∈ p.ordered.map Sensor.place :=
      hplace ▸ List.mem_map_of_mem hit
    obtain ⟨it₀, hit₀, hsame⟩ := List.mem_map.mp hmem
    obtain ⟨hid, hindex⟩ := Prod.mk.inj hsame
    rw [← hid, ← hindex]
    exact (h.good it₀ hit₀).1
  exact
    { placed := by rw [hplace]; exact h.placed
      indices := by rw [hindices]; exact h.indices
      good := fun it hit => ⟨hids it hit, hgood it hit⟩
      writable := h.writable
      specified := h.specified
      count := h.count
      decl := h.decl
      rev := hrev.trans h.rev
      objs := by
        have hkeys : (fun slot => (Plan.object { p with pkt := pkt, rev := rev, ordered := ordered }
            slot).id) = fun slot => (p.object slot).id := by
          funext slot
          exact object_id_congr hplace slot
        rw [hkeys]
        simpa only [hlength] using h.objs
      budget := h.budget }

/-- What a render leaves behind in `p'` and returns. -/
structure Rendered (Good : Obj → Prop) (enc : Entry → Probe → Except JsError Obj)
    (entries : List Entry) (ids : ℕ → UInt8) (encrypted : Bool) (limit : ℤ) (p : Plan)
    (r : Render) (p' : Plan) (result : Except JsError Bytes) : Prop where
  inv : PlanInv Good enc entries ids encrypted limit p'
  pkt : p'.pkt = lowByte r.pid
  rev : p'.rev = p.rev.map fun _ => lowByte (r.revision.getD 0)
  writable : p'.writable = p.writable
  ordered : p'.ordered = match r.source with
    | none => p.ordered
    | some read => p.ordered.map (refreshed read r.now)
  result : result = buildServiceData p'.info (p'.objs.map p'.object) p'.decl p'.budget

/-- The sensors that a render with `r` leaves. -/
def reread (r : Render) (sensors : List Sensor) : List Sensor :=
  match r.source with
  | none => sensors
  | some read => sensors.map (refreshed read r.now)

theorem place_reread (r : Render) (sensors : List Sensor) :
    (reread r sensors).map Sensor.place = sensors.map Sensor.place := by
  unfold reread
  cases r.source with
  | none => rfl
  | some read =>
      rw [List.map_map]
      exact List.map_congr_left fun it _ => place_refreshed r.now it

/-- An encoder that keeps its ids reads every sensor of the plan as what it was planned as. -/
theorem PlanInv.readings (h : PlanInv Good enc entries ids encrypted limit p)
    (hread : Encodes Good entries ids read) :
    ∀ it ∈ p.ordered, ∃ o, read it.entryIndex = .ok o ∧ o.id = it.id ∧ Good o := by
  intro it hit
  have hindex : it.entryIndex ∈ (List.range entries.length).filter (IsSensor entries) :=
    h.indices.subset (List.mem_map_of_mem hit)
  obtain ⟨o, ho, hid, hgood⟩ := hread it.entryIndex (List.mem_filter.mp hindex).2
  exact ⟨o, ho, hid.trans (h.good it hit).1.symm, hgood⟩

theorem PlanInv.good_reread (h : PlanInv Good enc entries ids encrypted limit p) {r : Render}
    (hsource : ∀ read ∈ r.source, Encodes Good entries ids read) :
    ∀ it ∈ reread r p.ordered, Good it.obj := by
  intro it hit
  unfold reread at hit
  cases hsrc : r.source with
  | none =>
      rw [hsrc] at hit
      exact (h.good it hit).2
  | some read =>
      rw [hsrc] at hit
      obtain ⟨it₀, hit₀, rfl⟩ := List.mem_map.mp hit
      exact good_refreshed (h.good it₀ hit₀).2 (h.readings (hsource read hsrc) it₀ hit₀)

/-- Rendering moves the packet id, the revision and the readings, and builds the packet. -/
theorem PlanInv.renderServiceData_eq (h : PlanInv Good enc entries ids encrypted limit p)
    {r : Render} (hsource : ∀ read ∈ r.source, Encodes Good entries ids read) :
    let p' : Plan :=
      { p with
        pkt := lowByte r.pid
        rev := p.rev.map fun _ => lowByte (r.revision.getD 0)
        ordered := reread r p.ordered }
    renderServiceData p r =
      (p', buildServiceData p'.info (p'.objs.map p'.object) p'.decl p'.budget) := by
  intro p'
  cases hsrc : r.source with
  | none => simp only [renderServiceData, reread, hsrc, p']
  | some read =>
      obtain ⟨moved, hrun⟩ : ∃ moved, readDue read r.now p.ordered =
          (p.ordered.map (refreshed read r.now), .ok moved) :=
        readDue_spec (h.readings (hsource read hsrc))
      simp only [renderServiceData, reread, hsrc, hrun, p']

theorem PlanInv.render (h : PlanInv Good enc entries ids encrypted limit p) (r : Render)
    (hsource : ∀ read ∈ r.source, Encodes Good entries ids read) :
    Rendered Good enc entries ids encrypted limit p r (renderServiceData p r).1
      (renderServiceData p r).2 := by
  rw [h.renderServiceData_eq hsource]
  exact
    { inv := h.congr (by simp) (place_reread r p.ordered) (h.good_reread hsource)
      pkt := rfl
      rev := rfl
      writable := rfl
      ordered := rfl
      result := rfl }

/-- Any number of renders later the plan is still the one that was made. -/
theorem PlanInv.renders (h : PlanInv Good enc entries ids encrypted limit p)
    {renders : List Render}
    (hsources : ∀ r ∈ renders, ∀ read ∈ r.source, Encodes Good entries ids read) :
    PlanInv Good enc entries ids encrypted limit
      (Runs.run (fun p r => (renderServiceData p r).1) p renders) := by
  have hstep : ∀ (p : Plan) (r : Render), PlanInv Good enc entries ids encrypted limit p →
      (∀ read ∈ r.source, Encodes Good entries ids read) →
      PlanInv Good enc entries ids encrypted limit (renderServiceData p r).1 :=
    fun _ r hp hsource => (hp.render r hsource).inv
  exact Runs.run_invariant hstep h (Runs.Along.of_forall hsources)

theorem encodeDeclaration_ok {declared : List UInt8} {decl : Bytes}
    (h : encodeDeclaration declared = .ok decl) :
    declared.length ≤ 255 ∧ decl = DECL_ID :: UInt8.ofNat declared.length :: declared := by
  unfold encodeDeclaration at h
  split at h
  · exact absurd h (by simp)
  · split at h
    · exact absurd h (by simp)
    · rename_i hlength
      exact ⟨by omega, (Except.ok.inj h).symm⟩

/-- The declaration of a plan: none without writable entries, else their ids in order. -/
theorem planDeclaration_ok {writable : List Writable} {decl : Option Bytes}
    (h : (if writable.isEmpty then .ok none
      else (encodeDeclaration (writable.map (·.spec.id))).map some) = Except.ok decl) :
    writable.length ≤ 255 ∧ decl = if writable = [] then none else
      some (DECL_ID :: UInt8.ofNat writable.length :: writable.map (·.spec.id)) := by
  cases writable with
  | nil =>
      obtain rfl : none = decl := by simpa using h
      exact ⟨by simp, rfl⟩
  | cons w rest =>
      simp only [List.isEmpty_cons, Bool.false_eq_true, if_false] at h
      cases hrun : encodeDeclaration ((w :: rest).map (·.spec.id)) with
      | error x =>
          rw [hrun] at h
          exact absurd h (by simp [Except.map])
      | ok bytes =>
          rw [hrun] at h
          obtain rfl : some bytes = decl := Except.ok.inj h
          obtain ⟨hlength, rfl⟩ := encodeDeclaration_ok hrun
          rw [List.length_map] at hlength ⊢
          exact ⟨hlength, by simp⟩

/-- The plan that `planPacket` renders once to see whether it fits. -/
def draft (encrypted : Bool) (limit : Option ℤ) (sensors : List Sensor) (writable : List Writable)
    (decl : Option Bytes) : Plan :=
  let readable := writable.any (·.readable)
  let p : Plan :=
    { ordered := stableSortByObjectId Sensor.id sensors
      writable := writable
      entryIds := writable.map (·.spec.id)
      settingsRevision := readable
      info := if encrypted then DEV_INFO_ENC else DEV_INFO
      budget := limit.getD BUDGET - if encrypted then ENC_OVERHEAD else 0
      decl := decl
      pkt := 0
      rev := if readable then some 0 else none
      objs := []
      serviceDataLength := 0 }
  { p with
    objs := stableSortByObjectId (fun slot => (p.object slot).id)
      (slots p.ordered.length readable) }

theorem planInv_draft {limit : Option ℤ} {sensors : List Sensor} {writable : List Writable}
    {decl : Option Bytes} (hsifted : Sifted Good enc entries ids entries.length sensors writable)
    (hcount : writable.length ≤ 255) (hdecl : decl = if writable = [] then none else
      some (DECL_ID :: UInt8.ofNat writable.length :: writable.map (·.spec.id))) :
    PlanInv Good enc entries ids encrypted (limit.getD BUDGET)
      (draft encrypted limit sensors writable decl) := by
  have hordered : StableSort.IsStableSort (fun it : Sensor => it.id.toNat) sensors
      (stableSortByObjectId Sensor.id sensors) := StableSort.isStableSort_sort sensors
  have hascending : (sensors.map Sensor.entryIndex).Pairwise (· < ·) := by
    rw [hsifted.sensor_indices]
    exact List.pairwise_lt_range.filter _
  exact
    { placed := placed_of_isStableSort hascending
      indices := by
        rw [← hsifted.sensor_indices]
        exact hordered.perm.map _
      good := fun it hit => hsifted.good it (hordered.perm.subset hit)
      writable := hsifted.writable_indices
      specified := hsifted.specified
      count := hcount
      decl := hdecl
      rev := by
        show (if writable.any (·.readable) then some (0 : UInt8) else none).isSome =
          writable.any (·.readable)
        cases writable.any (·.readable) <;> rfl
      objs := by
        show stableSortByObjectId _ _ = stableSortByObjectId _ _
        congr 1
      budget := by cases encrypted <;> rfl }

theorem planEntries_sifted_all {defRead : ℕ} {sensors : List Sensor} {writable : List Writable}
    (hread : Encodes Good entries ids read)
    (hrun : planEntries enc read defRead entries 0 [] [] = .ok (sensors, writable)) :
    Sifted Good enc entries ids entries.length sensors writable := by
  have hnone : Sifted Good enc entries ids 0 [] [] := ⟨rfl, by simp, rfl, by simp⟩
  have hall := planEntries_sifted hread List.drop_zero hnone hrun
  rwa [Nat.zero_add] at hall

/-- How `planPacket` ends: over an entry, over the declaration, or with what a plan made of all
the entries builds. -/
theorem planPacket_cases (defRead : Option ℕ) (limit : Option ℤ)
    (hread : Encodes Good entries ids read) :
    (∃ x, planPacket enc read entries defRead encrypted limit = .error x ∧
      (planEntries enc read (defRead.getD 0) entries 0 [] [] = .error x ∨
        ∃ sensors writable,
          planEntries enc read (defRead.getD 0) entries 0 [] [] = .ok (sensors, writable) ∧
          encodeDeclaration (writable.map (·.spec.id)) = .error x)) ∨
    ∃ p, PlanInv Good enc entries ids encrypted (limit.getD BUDGET) p ∧
      planPacket enc read entries defRead encrypted limit =
        (buildServiceData p.info (p.objs.map p.object) p.decl p.budget).map fun sd =>
          { p with serviceDataLength := sd.length } := by
  unfold planPacket
  cases hentries : planEntries enc read (defRead.getD 0) entries 0 [] [] with
  | error x => exact Or.inl ⟨x, rfl, Or.inl rfl⟩
  | ok found =>
      obtain ⟨sensors, writable⟩ := found
      have hsifted := planEntries_sifted_all hread hentries
      simp only
      cases hdecl : (if writable.isEmpty then .ok none
          else (encodeDeclaration (writable.map (·.spec.id))).map some :
          Except JsError (Option Bytes)) with
      | error x =>
          refine Or.inl ⟨x, rfl, Or.inr ⟨sensors, writable, rfl, ?_⟩⟩
          split at hdecl
          · exact absurd hdecl (by simp)
          · cases hrun : encodeDeclaration (writable.map (·.spec.id)) with
            | error y =>
                rw [hrun] at hdecl
                exact congrArg _ (Except.error.inj hdecl)
            | ok bytes =>
                rw [hrun] at hdecl
                exact absurd hdecl (by simp [Except.map])
      | ok decl =>
          obtain ⟨hcount, hdeclared⟩ := planDeclaration_ok hdecl
          -- the packet that `planPacket` builds is a rendering of the draft without a
          -- reading pass
          have hdraft : PlanInv Good enc entries ids encrypted (limit.getD BUDGET)
              (draft encrypted limit sensors writable decl) :=
            planInv_draft hsifted hcount hdeclared
          have hrendered := hdraft.render ⟨0, none, 0, some 0⟩ (by simp)
          refine Or.inr ⟨_, hrendered.inv, ?_⟩
          rw [← hrendered.result]
          simp only
          split
          · rename_i q x hdrafted
            have hrun : renderServiceData (draft encrypted limit sensors writable decl)
                ⟨0, none, 0, some 0⟩ = (q, .error x) := hdrafted
            rw [hrun]
            rfl
          · rename_i q sd hdrafted
            have hrun : renderServiceData (draft encrypted limit sensors writable decl)
                ⟨0, none, 0, some 0⟩ = (q, .ok sd) := hdrafted
            rw [hrun]
            rfl

theorem planInv_planPacket {defRead : Option ℕ} {limit : Option ℤ}
    (hread : Encodes Good entries ids read)
    (hplan : planPacket enc read entries defRead encrypted limit = .ok p) :
    PlanInv Good enc entries ids encrypted (limit.getD BUDGET) p := by
  rcases planPacket_cases defRead limit hread with ⟨x, hrefused, -⟩ | ⟨q, hq, hbuilt⟩
  · rw [hrefused] at hplan
    exact absurd hplan (by simp)
  · rw [hbuilt] at hplan
    cases hsd : buildServiceData q.info (q.objs.map q.object) q.decl q.budget with
    | error x =>
        rw [hsd] at hplan
        exact absurd hplan (by simp [Except.map])
    | ok sd =>
        rw [hsd] at hplan
        obtain rfl := Except.ok.inj hplan
        exact { hq with }

end BTHomeWritable.Device
