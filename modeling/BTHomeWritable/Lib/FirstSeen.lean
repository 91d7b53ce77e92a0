import Mathlib.Data.List.Flatten
import Mathlib.Data.List.Perm.Basic
import Mathlib.Data.List.Nodup

/-!
# Building what has not been seen before

A list of items comes again and again, each time perhaps another one.  Of the
items that are wanted, those whose key is new are built, and their keys are kept;
nothing built is ever taken away.  How an item is built may differ from one time
to the next: what counts of a built thing is its mark, and the marks are settled
by the key.

So the marks of everything built are those of the known keys (`Marked`), and
those among them that are still called for are the marks of the items that came
last, up to their order (`live_perm`).
-/

namespace FirstSeen

variable {Item Key Built Mark : Type*} [DecidableEq Key]

structure Log (Key Built : Type*) where
  known : List Key
  built : List Built

def Log.empty : Log Key Built := ⟨[], []⟩

variable (key : Item → Key) (wanted : Item → Bool) (build : Item → List Built)

def note (log : Log Key Built) (item : Item) : Log Key Built :=
  if key item ∈ log.known || !wanted item then log
  else ⟨log.known ++ [key item], log.built ++ build item⟩

def notes (log : Log Key Built) (items : List Item) : Log Key Built :=
  items.foldl (note key wanted build) log

/-- The marks of what was built are those of the known keys, each of which was called for. -/
structure Marked (mark : Built → Mark) (marks : Key → List Mark) (Wanted : Key → Prop)
    (log : Log Key Built) : Prop where
  nodup : log.known.Nodup
  called : ∀ k ∈ log.known, Wanted k
  marks : log.built.map mark = log.known.flatMap marks

variable {key wanted build} {mark : Built → Mark} {marks : Key → List Mark} {Wanted : Key → Prop}
variable {log : Log Key Built} {item : Item} {items : List Item}

omit [DecidableEq Key] in
theorem marked_empty : Marked mark marks Wanted (Log.empty : Log Key Built) :=
  ⟨List.nodup_nil, fun _ h => absurd h List.not_mem_nil, rfl⟩

theorem known_note : (note key wanted build log item).known =
    if key item ∈ log.known || !wanted item then log.known else log.known ++ [key item] := by
  unfold note
  split <;> rfl

/-- What is known stays known. -/
theorem known_subset_note : log.known ⊆ (note key wanted build log item).known := by
  intro k hk
  rw [known_note]
  split
  · exact hk
  · exact List.mem_append_left _ hk

theorem known_subset_notes : log.known ⊆ (notes key wanted build log items).known := by
  induction items generalizing log with
  | nil => exact fun _ hk => hk
  | cons item rest ih => exact List.Subset.trans known_subset_note ih

theorem key_mem_known_note (hwanted : wanted item = true) :
    key item ∈ (note key wanted build log item).known := by
  rw [known_note]
  split
  · rename_i h
    simpa [hwanted] using h
  · exact List.mem_append_right _ (List.mem_singleton_self _)

/-- Every wanted item is known afterwards. -/
theorem key_mem_known_notes (hitem : item ∈ items) (hwanted : wanted item = true) :
    key item ∈ (notes key wanted build log items).known := by
  induction items generalizing log with
  | nil => exact absurd hitem List.not_mem_nil
  | cons first rest ih =>
      show key item ∈ (notes key wanted build (note key wanted build log first) rest).known
      rcases List.mem_cons.mp hitem with hfirst | hrest
      · rw [← hfirst]
        exact known_subset_notes (key_mem_known_note hwanted)
      · exact ih hrest

theorem Marked.note (h : Marked mark marks Wanted log)
    (hbuild : (build item).map mark = marks (key item))
    (hwanted : wanted item = true → Wanted (key item)) :
    Marked mark marks Wanted (note key wanted build log item) := by
  unfold FirstSeen.note
  split
  · exact h
  · rename_i hnew
    simp only [Bool.or_eq_true, decide_eq_true_eq, Bool.not_eq_true', not_or,
      Bool.not_eq_false] at hnew
    refine ⟨?_, ?_, ?_⟩
    · rw [List.nodup_append]
      refine ⟨h.nodup, List.nodup_singleton _, ?_⟩
      intro k hk k' hk'
      obtain rfl := List.mem_singleton.mp hk'
      exact fun heq => hnew.1 (heq ▸ hk)
    · intro k hk
      rcases List.mem_append.mp hk with hk | hk
      · exact h.called k hk
      · obtain rfl := List.mem_singleton.mp hk
        exact hwanted hnew.2
    · simp [h.marks, hbuild]

theorem Marked.notes (h : Marked mark marks Wanted log)
    (hbuild : ∀ item ∈ items, wanted item = true → (build item).map mark = marks (key item))
    (hwanted : ∀ item ∈ items, wanted item = true → Wanted (key item)) :
    Marked mark marks Wanted (notes key wanted build log items) := by
  induction items generalizing log with
  | nil => exact h
  | cons item rest ih =>
      refine ih ?_ (fun item hitem => hbuild item (List.mem_cons_of_mem _ hitem))
        fun item hitem => hwanted item (List.mem_cons_of_mem _ hitem)
      cases hitem : wanted item with
      | true =>
          exact h.note (hbuild item List.mem_cons_self hitem)
            fun _ => hwanted item List.mem_cons_self hitem
      | false =>
          have hsame : FirstSeen.note key wanted build log item = log := by
            simp [FirstSeen.note, hitem]
          rw [hsame]
          exact h

/-- From nothing, items of different keys are built as they come. -/
theorem built_notes_empty (hkeys : (items.map key).Nodup) :
    (notes key wanted build Log.empty items).built = (items.filter wanted).flatMap build := by
  have hmore : ∀ log : Log Key Built, (∀ item ∈ items, key item ∉ log.known) →
      (notes key wanted build log items).built =
        log.built ++ (items.filter wanted).flatMap build := by
    induction items with
    | nil => intro log _; simp [notes]
    | cons item rest ih =>
        intro log hnew
        rw [List.map_cons, List.nodup_cons] at hkeys
        have hfirst : key item ∉ log.known := hnew item List.mem_cons_self
        show (notes key wanted build (note key wanted build log item) rest).built = _
        rw [ih hkeys.2]
        · cases hwanted : wanted item <;> simp [note, hfirst, hwanted]
        · intro later hlater hmem
          have hne : key later ≠ key item := fun h =>
            hkeys.1 (h ▸ List.mem_map_of_mem hlater)
          rw [known_note] at hmem
          split at hmem
          · exact hnew later (List.mem_cons_of_mem _ hlater) hmem
          · rcases List.mem_append.mp hmem with hmem | hmem
            · exact hnew later (List.mem_cons_of_mem _ hlater) hmem
            · exact hne (List.mem_singleton.mp hmem)
  simpa [Log.empty] using hmore Log.empty fun _ _ h => absurd h List.not_mem_nil

omit [DecidableEq Key] in
/-- No mark comes twice, if a mark tells its key. -/
theorem Marked.nodup_marks (h : Marked mark marks Wanted log) {origin : Mark → Key}
    (horigin : ∀ k, ∀ m ∈ marks k, origin m = k) (hmarks : ∀ k, (marks k).Nodup) :
    (log.built.map mark).Nodup := by
  rw [h.marks, List.nodup_flatMap]
  refine ⟨fun k _ => hmarks k, h.nodup.imp ?_⟩
  intro k k' hne m hm hm'
  exact hne ((horigin k m hm).symm.trans (horigin k' m hm'))

/-- The marks of what is called for at present are those of its keys, up to their order. -/
theorem Marked.live_perm (h : Marked mark marks Wanted log) {current : List Key}
    {live : Mark → Bool}
    (hlive : ∀ k, Wanted k → ∀ m ∈ marks k, live m = true ↔ k ∈ current)
    (hcurrent : current.Nodup) (hknown : current ⊆ log.known) :
    ((log.built.map mark).filter live).Perm (current.flatMap marks) := by
  have hkeys : (log.known.filter (· ∈ current)).Perm current := by
    rw [List.perm_ext_iff_of_nodup (h.nodup.filter _) hcurrent]
    intro k
    simp only [List.mem_filter, decide_eq_true_eq, and_iff_right_iff_imp]
    exact fun hk => hknown hk
  have hfilter : ∀ keys : List Key, (∀ k ∈ keys, Wanted k) →
      (keys.flatMap marks).filter live = (keys.filter (· ∈ current)).flatMap marks := by
    intro keys hkeys
    induction keys with
    | nil => rfl
    | cons k rest ih =>
        have hrest := ih fun k' hk' => hkeys k' (List.mem_cons_of_mem _ hk')
        have hk : ∀ m ∈ marks k, live m = true ↔ k ∈ current :=
          hlive k (hkeys k List.mem_cons_self)
        rw [List.flatMap_cons, List.filter_append, hrest]
        by_cases hin : k ∈ current
        · have hall : (marks k).filter live = marks k :=
            List.filter_eq_self.mpr fun m hm => (hk m hm).mpr hin
          rw [hall, List.filter_cons_of_pos (by simpa using hin), List.flatMap_cons]
        · have hnone : (marks k).filter live = [] :=
            List.filter_eq_nil_iff.mpr fun m hm hl => hin ((hk m hm).mp hl)
          rw [hnone, List.filter_cons_of_neg (by simpa using hin), List.nil_append]
  rw [h.marks, hfilter log.known h.called]
  exact hkeys.flatMap_right marks

end FirstSeen
