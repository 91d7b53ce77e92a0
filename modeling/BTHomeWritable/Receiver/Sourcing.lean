import BTHomeWritable.Receiver.WrittenValue

/-!
# Where held values come from

A coordinator takes a value from two places: the commands it is given and the
characteristics it looks at.  If whatever it is given and shown for an entry has
some property, then so has whatever it holds for that entry.

`Supplies` is the condition on a step, and `Sourced` the invariant: it is about
the values held and about those that commands on their way still carry (`order`).
The lemmas on values say of each operation that what is known after it was known
before, or was shown or commanded (`valueOf_confirm`, `valueOf_readerStep_read`,
`valueOf_writerStep_carry`); `Sourced.step` goes through the steps.
-/

namespace BTHomeWritable.Receiver.Cache

variable {env : Opening} {s s' : Cache} {P : ℕ → Bytes → Prop} {i k : ℕ} {o : Order} {layouts : ℕ}
  {e : WritableEntry} {look : Look} {v : Bytes}

/-- What a look at entry `e` makes known. -/
def Shows (env : Opening) (e : WritableEntry) (look : Look) (v : Bytes) : Prop :=
  ∃ raw, look = .answer raw ∧ env.openRead e raw = .ok (some v)

/-- The command, as long as it has not been answered. -/
def order : Writer → Option Order
  | .begun o | .acknowledged o _ => some o
  | .folding _ _ _ _ | .gone => none

/-- Whatever is held, or waits to be, for an entry is a `P` of that entry. -/
structure Sourced (P : ℕ → Bytes → Prop) (s : Cache) : Prop where
  values : ∀ k v, s.valueOf k = some v → P k v
  orders : ∀ w ∈ s.writers, ∀ o, order w = some o → P o.number o.value ∧ o.entry.entry = o.number
  numbered : Numbered s

/-- What the step is given and shown is a `P` of the entry it is for. -/
def Supplies (env : Opening) (P : ℕ → Bytes → Prop) (s : Cache) : CacheAct → Prop
  | .command number value _ => P number value
  | .read i look => ∀ c attempt e rest failed,
      s.readers[i]? = some (.reading c attempt (e :: rest) failed) →
      ∀ v, Shows env e look v → P e.entry v
  | .carry i look => ∀ c was e rest failed,
      s.writers[i]? = some (.folding c was (e :: rest) failed) →
      ∀ v, Shows env e look v → P e.entry v
  | .confirm i look _ => ∀ o layouts, s.writers[i]? = some (.acknowledged o layouts) →
      ∀ v, Shows env o.entry look v → P o.entry.entry v
  | _ => True

/-! ## Values -/

theorem valueOf_keep_cases {number : ℕ} {value : Bytes} {source : Source}
    (h : (s.keep number value source).valueOf k = some v) :
    s.valueOf k = some v ∨ (k = number ∧ v = value) := by
  by_cases hk : k = number
  · subst hk
    rw [valueOf_keep] at h
    exact .inr ⟨rfl, (Option.some.inj h).symm⟩
  · rw [valueOf, keep_other hk] at h
    exact .inl h

theorem valueOf_readEntry (h : (s.readEntry env e look).1.valueOf k = some v) :
    s.valueOf k = some v ∨ (k = e.entry ∧ Shows env e look v) := by
  unfold readEntry at h
  split at h
  · exact .inl h
  · exact .inl h
  · exact .inl h
  · rename_i raw
    split at h
    · exact .inl h
    · exact .inl h
    · exact .inl h
    · rename_i value hopen
      rcases valueOf_keep_cases h with hold | ⟨rfl, rfl⟩
      · exact .inl hold
      · exact .inr ⟨rfl, raw, rfl, hopen⟩

theorem settled_eq_some {reported : Option Bytes} {answer : Bytes}
    (h : settled o reported = some answer) : reported = some answer := by
  unfold settled at h
  split at h
  · cases h
  · split at h
    · split at h
      · cases h
      · exact h
    · exact h

theorem valueOf_settleWrittenValue {reported : Option Bytes}
    (h : (s.settleWrittenValue o layouts reported).valueOf k = some v) :
    s.valueOf k = some v ∨ (k = o.number ∧ (v = o.value ∨ reported = some v)) := by
  unfold settleWrittenValue at h
  split at h
  · split at h
    · rcases valueOf_keep_cases h with hold | ⟨hk, hv⟩
      · exact .inl hold
      · exact .inr ⟨hk, .inl hv⟩
    · rename_i answer hsettled
      rcases valueOf_keep_cases h with hold | ⟨hk, rfl⟩
      · exact .inl hold
      · exact .inr ⟨hk, .inr (settled_eq_some hsettled)⟩
  · exact .inl h

/-- What `_read_back` reports is what was shown. -/
theorem shows_of_readBack {entry : WritableEntry} (h : readBack env entry look = some (some v)) :
    Shows env entry look v := by
  unfold readBack at h
  split at h
  · cases h
  · split at h
    · cases h
    · cases h
    · cases h
    · rename_i raw
      split at h
      · cases h
      · rename_i reported hopen
        obtain rfl := Option.some.inj h
        exact ⟨raw, rfl, hopen⟩

theorem valueOf_confirm {raises : Bool}
    (h : (s.confirm env i o layouts look raises).valueOf k = some v) :
    s.valueOf k = some v ∨ (k = o.number ∧ (v = o.value ∨ Shows env o.entry look v)) := by
  unfold confirm at h
  cases hback : readBack env o.entry look with
  | none =>
      rw [hback] at h
      exact .inl h
  | some reported =>
      have hsettled : (s.settleWrittenValue o layouts reported).valueOf k = some v := by
        rw [hback] at h
        simp only at h
        split at h
        · exact h
        · split at h
          · rwa [valueOf_congr (carryRead_frame env _ i _).2] at h
          · exact h
      rcases valueOf_settleWrittenValue hsettled with hold | ⟨hk, hv | rfl⟩
      · exact .inl hold
      · exact .inr ⟨hk, .inl hv⟩
      · exact .inr ⟨hk, .inr (shows_of_readBack hback)⟩

theorem valueOf_readerStep_read {r : Reader} {j : ℕ}
    (h : (s.readerStep env i r (.read j look)).valueOf k = some v) :
    s.valueOf k = some v ∨ ∃ c attempt e rest failed,
      r = .reading c attempt (e :: rest) failed ∧ k = e.entry ∧ Shows env e look v := by
  cases r with
  | reading c attempt entries failed =>
      cases entries with
      | nil => exact .inl h
      | cons e rest =>
          have hread : (s.readEntry env e look).1.valueOf k = some v := by
            simp only [readerStep] at h
            cases hstep : s.readEntry env e look with
            | mk s₁ result =>
                rw [hstep] at h
                cases result <;> exact h
          refine (valueOf_readEntry hread).imp_right ?_
          rintro ⟨hk, hshows⟩
          exact ⟨c, attempt, e, rest, failed, rfl, hk, hshows⟩
  | _ => exact .inl h

theorem valueOf_writerStep_carry {w : Writer} {j : ℕ}
    (h : (s.writerStep env i w (.carry j look)).valueOf k = some v) :
    s.valueOf k = some v ∨ ∃ c was e rest failed,
      w = .folding c was (e :: rest) failed ∧ k = e.entry ∧ Shows env e look v := by
  cases w with
  | folding c was entries failed =>
      cases entries with
      | nil => exact .inl h
      | cons e rest =>
          have hread : (s.readEntry env e look).1.valueOf k = some v := by
            simp only [writerStep] at h
            cases hstep : s.readEntry env e look with
            | mk s₁ result =>
                rw [hstep] at h
                cases result with
                | ok refused => exact h
                | error result =>
                    exact (valueOf_congr (carryEnds_frame s₁ i c was false).2 k).symm.trans h
          refine (valueOf_readEntry hread).imp_right ?_
          rintro ⟨hk, hshows⟩
          exact ⟨c, was, e, rest, failed, rfl, hk, hshows⟩
  | _ => exact .inl h

/-! ## Commands on their way -/

theorem writers_readerStep (env : Opening) (s : Cache) (i : ℕ) (r : Reader) (a : CacheAct) :
    (s.readerStep env i r a).writers = s.writers := by
  by_cases ha : ∃ j, a = .cancelRead j
  · obtain ⟨j, rfl⟩ := ha
    cases r <;> rfl
  · rcases readerStep_moves env s i r a fun j hj => ha ⟨j, hj⟩ with hsame | ⟨-, r', hmoves⟩
    · rw [hsame]
    · exact hmoves.writers

/-- After its answer a command is none any more. -/
theorem writers_confirm (env : Opening) (s : Cache) (i : ℕ) (o : Order) (layouts : ℕ)
    (look : Look) (raises : Bool) :
    ∃ w, (s.confirm env i o layouts look raises).writers = s.writers.set i w ∧ order w = none := by
  unfold confirm
  cases readBack env o.entry look with
  | none => exact ⟨.gone, rfl, rfl⟩
  | some reported =>
      obtain ⟨values, hvalues⟩ := settleWrittenValue_values s o layouts reported
      simp only [hvalues]
      split
      · exact ⟨.gone, rfl, rfl⟩
      · split
        · unfold carryRead
          split <;> exact ⟨_, rfl, rfl⟩
        · exact ⟨.gone, rfl, rfl⟩

/-- A command is passed on as it is, until it is answered. -/
theorem order_writerStep (env : Opening) (s : Cache) (i : ℕ) (w : Writer) (a : CacheAct) :
    (s.writerStep env i w a).writers = s.writers ∨
      ∃ w', (s.writerStep env i w a).writers = s.writers.set i w' ∧
        ∀ o, order w' = some o → order w = some o := by
  -- a command that ends has no order left
  have hends : ∀ {u : Cache}, u.writers = s.writers.set i .gone →
      u.writers = s.writers ∨ ∃ w', u.writers = s.writers.set i w' ∧
        ∀ o, order w' = some o → order w = some o :=
    fun hu => .inr ⟨.gone, hu, fun _ h => by cases h⟩
  cases w with
  | begun o =>
      cases a with
      | acknowledge j => exact .inr ⟨.acknowledged o s.layouts, rfl, fun _ h => h⟩
      | failWrite | cancelWrite => exact hends rfl
      | _ => exact .inl rfl
  | acknowledged o layouts =>
      cases a with
      | confirm j look raises =>
          obtain ⟨w', hwriters, hnone⟩ := s.writers_confirm env i o layouts look raises
          refine .inr ⟨w', hwriters, fun o' ho' => ?_⟩
          rw [hnone] at ho'
          cases ho'
      | failWrite | cancelWrite => exact hends rfl
      | _ => exact .inl rfl
  | folding c was rest failed =>
      have hrestores : (Writer.folding c was rest failed).restores = some was := rfl
      have hfolded : ∀ j look, a = .carry j look →
          (s.writerStep env i (.folding c was rest failed) a).writers = s.writers ∨
            ∃ w', (s.writerStep env i (.folding c was rest failed) a).writers =
                s.writers.set i w' ∧ order w' = none := by
        rintro j look rfl
        cases rest with
        | nil => exact .inl rfl
        | cons e rest =>
            obtain ⟨values, hvalues⟩ := readEntry_values env s e look
            simp only [writerStep]
            cases hread : s.readEntry env e look with
            | mk s₁ result =>
                rw [hread] at hvalues
                subst hvalues
                cases result with
                | ok refused => exact .inr ⟨_, rfl, rfl⟩
                | error result => exact .inr ⟨.gone, by simp [carryEnds, setWriter], rfl⟩
      cases a with
      | carry j look =>
          refine (hfolded j look rfl).imp_right ?_
          rintro ⟨w', hwriters, hnone⟩
          refine ⟨w', hwriters, fun o' ho' => ?_⟩
          rw [hnone] at ho'
          cases ho'
      | carried j =>
          cases rest with
          | nil => exact hends (carryEnds_moves s i c was (!failed) hrestores).writers
          | cons e rest => exact .inl rfl
      | failWrite j => exact hends (carryEnds_moves s i c was false hrestores).writers
      | cancelWrite j => exact hends rfl
      | _ => exact .inl rfl
  | gone =>
      cases a with
      | failWrite | cancelWrite => exact hends rfl
      | _ => exact .inl rfl

/-! ## Steps -/

theorem Sourced.congr (h : Sourced P s) (hvalues : s'.values = s.values)
    (hwriters : s'.writers = s.writers) (hnumbered : Numbered s') : Sourced P s' where
  values k v hv := h.values k v (by rwa [valueOf_congr hvalues] at hv)
  orders w hw := h.orders w (hwriters ▸ hw)
  numbered := hnumbered

theorem Sourced.keep (h : Sourced P s) (hwriters : s'.writers = s.writers)
    (hnumbered : Numbered s')
    (hvalues : ∀ k v, s'.valueOf k = some v → s.valueOf k = some v ∨ P k v) : Sourced P s' where
  values k v hv := (hvalues k v hv).elim (h.values k v) id
  orders w hw := h.orders w (hwriters ▸ hw)
  numbered := hnumbered

/-- A step of a command is one as far as its value and its order go. -/
theorem Sourced.writer (h : Sourced P s) {w : Writer} (hw : s.writers[i]? = some w) {a : CacheAct}
    (hvalues : ∀ k v, (s.writerStep env i w a).valueOf k = some v → s.valueOf k = some v ∨ P k v)
    (hnumbered : Numbered (s.writerStep env i w a)) : Sourced P (s.writerStep env i w a) where
  values k v hv := (hvalues k v hv).elim (h.values k v) id
  orders := by
    rcases order_writerStep env s i w a with hsame | ⟨w', hwriters, horder⟩
    · rw [hsame]
      exact h.orders
    · intro x hx o ho
      rw [hwriters] at hx
      rcases List.mem_or_eq_of_mem_set hx with hold | rfl
      · exact h.orders x hold o ho
      · exact h.orders w (List.mem_of_getElem? hw) o (horder o ho)
  numbered := hnumbered

theorem getElem?_entriesFrom (k : ℕ) (ids : Bytes) (i : ℕ) :
    (entriesFrom k ids)[i]? = ids[i]?.map fun id => ⟨k + i, id⟩ := by
  induction ids generalizing k i with
  | nil => rfl
  | cons id ids ih =>
      cases i with
      | zero => rfl
      | succ i =>
          rw [entriesFrom, List.getElem?_cons_succ, List.getElem?_cons_succ, ih]
          simp only [Nat.add_assoc, Nat.add_comm 1]

/-- The entry a command looks up is that of its number. -/
theorem entry_number (hnumbered : Numbered s) (h : s.entry k = some e) : e.entry = k := by
  unfold entry at h
  split at h
  · cases h
  · rename_i d hd
    split at h
    · rename_i hrange
      rw [hnumbered d hd, getElem?_entriesFrom, Option.map_eq_some_iff] at h
      obtain ⟨id, -, rfl⟩ := h
      show 1 + (k - 1) = k
      omega
    · cases h

theorem Sourced.step (h : Sourced P s) {a : CacheAct} (hsupplies : Supplies env P s a) :
    Sourced P (s.step env a) := by
  have hnumbered : Numbered (s.step env a) := h.numbered.step env a
  have hsame : (∀ layout revision readable reachable,
      a ≠ .advertise layout revision readable reachable) → storing env s a = none →
      (s.step env a).values = s.values := fun ha hnone => by
    have hstores := (step_stores env s a ha).2
    rwa [hnone] at hstores
  have hreader : ∀ j, s.step env a = s.readers[j]?.elim s (fun r => s.readerStep env j r a) →
      (s.step env a).writers = s.writers := by
    intro j hstep
    rw [hstep]
    cases s.readers[j]? with
    | none => rfl
    | some r => exact writers_readerStep env s j r a
  have hwriter : ∀ j, s.step env a = s.writers[j]?.elim s (fun w => s.writerStep env j w a) →
      (∀ w, s.writers[j]? = some w → ∀ k v, (s.writerStep env j w a).valueOf k = some v →
        s.valueOf k = some v ∨ P k v) → Sourced P (s.step env a) := by
    intro j hstep hvalues
    rw [hstep] at hnumbered ⊢
    cases hw : s.writers[j]? with
    | none => exact h
    | some w =>
        rw [hw] at hnumbered
        exact h.writer hw (hvalues w hw) hnumbered
  have hquiet : ∀ j, s.step env a = s.writers[j]?.elim s (fun w => s.writerStep env j w a) →
      (s.step env a).values = s.values → Sourced P (s.step env a) := by
    intro j hstep hvalues
    refine hwriter j hstep fun w hw k v hv => .inl ?_
    rw [hw, Option.elim_some] at hstep
    rwa [← hstep, valueOf_congr hvalues] at hv
  -- only advertisements empty the cache; only `read`, `confirm` and `carry` store, and
  -- only `command` adds an order
  cases a with
  | advertise layout revision readable reachable =>
      -- a new layout empties what is held, and a known one leaves it
      refine h.keep (advertise_writers s layout revision readable reachable) hnumbered ?_
      intro k v hv
      replace hv : (s.advertise layout revision readable reachable).valueOf k = some v := hv
      cases hchanges : s.layoutChanges layout with
      | false =>
          rw [valueOf_congr (advertise_values hchanges)] at hv
          exact .inl hv
      | true =>
          have hsome : s.declaration.isSome = true := by
            cases hdeclaration : s.declaration with
            | none => simp [layoutChanges, hdeclaration] at hchanges
            | some known => rfl
          have hnew : s.newLayout layout = true := by simp [newLayout, hchanges]
          rw [valueOf, (advertise_anew hnew).values hsome k] at hv
          cases hv
  | request reachable =>
      exact h.congr (hsame (by simp) rfl) (s.requestRead_keeps reachable).1 hnumbered
  | pass seconds => exact h.congr rfl rfl hnumbered
  | command number value coalesce =>
      simp only [Cache.step] at hnumbered ⊢
      cases hentry : s.entry number with
      | none => exact h
      | some entry =>
          refine ⟨h.values, fun w hw o ho => ?_, h.numbered⟩
          rcases List.mem_append.mp hw with hold | hnew
          · exact h.orders w hold o ho
          · obtain rfl := List.mem_singleton.mp hnew
            obtain rfl := Option.some.inj ho
            exact ⟨hsupplies, entry_number h.numbered hentry⟩
  | link j reachable => exact h.congr (hsame (by simp) rfl) (hreader j rfl) hnumbered
  | connected j => exact h.congr (hsame (by simp) rfl) (hreader j rfl) hnumbered
  | walked j => exact h.congr (hsame (by simp) rfl) (hreader j rfl) hnumbered
  | closed j raises reachable => exact h.congr (hsame (by simp) rfl) (hreader j rfl) hnumbered
  | failRead j => exact h.congr (hsame (by simp) rfl) (hreader j rfl) hnumbered
  | cancelRead j => exact h.congr (hsame (by simp) rfl) (hreader j rfl) hnumbered
  | acknowledge j => exact hquiet j rfl (hsame (by simp) rfl)
  | carried j => exact hquiet j rfl (hsame (by simp) rfl)
  | failWrite j => exact hquiet j rfl (hsame (by simp) rfl)
  | cancelWrite j => exact hquiet j rfl (hsame (by simp) rfl)
  | read j look =>
      refine h.keep (hreader j rfl) hnumbered fun k v hv => ?_
      simp only [Cache.step] at hv
      cases hr : s.readers[j]? with
      | none =>
          rw [hr] at hv
          exact .inl hv
      | some r =>
          rw [hr, Option.elim_some] at hv
          rcases valueOf_readerStep_read hv with
            hold | ⟨c, attempt, e, rest, failed, rfl, rfl, hshows⟩
          · exact .inl hold
          · exact .inr (hsupplies c attempt e rest failed hr v hshows)
  | confirm j look raises =>
      refine hwriter j rfl fun w hw k v hv => ?_
      -- what is confirmed is kept, the value of the command, or what the entry was shown
      -- to hold
      cases w with
      | acknowledged o layouts =>
          obtain ⟨hcommanded, hentry⟩ := h.orders _ (List.mem_of_getElem? hw) o rfl
          rcases valueOf_confirm hv with hold | ⟨rfl, rfl | hshows⟩
          · exact .inl hold
          · exact .inr hcommanded
          · exact .inr (hentry ▸ hsupplies o layouts hw v hshows)
      | _ => exact .inl hv
  | carry j look =>
      refine hwriter j rfl fun w hw k v hv => ?_
      rcases valueOf_writerStep_carry hv with hold | ⟨c, was, e, rest, failed, rfl, rfl, hshows⟩
      · exact .inl hold
      · exact .inr (hsupplies c was e rest failed hw v hshows)

end BTHomeWritable.Receiver.Cache
