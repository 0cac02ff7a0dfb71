import Mathlib.Data.Fintype.Card
import Mathlib.Data.List.Nodup
import Turnstile.Ledger

/-!
# What the ledger does

A query returns the free candidates of a key. An entry is accepted exactly if its candidate is
free, and then the row of this candidate is taken and nothing else changes (`create_cases`,
`mem_mark`). The candidates of a ledger are supposed to have different numbers (`Distinct`): only
then is a candidate known by its number.
-/

namespace Turnstile.Ledger

/-- No two candidates have the same number. -/
def Distinct (rows : List (Candidate × Option UInt64)) : Prop :=
  (rows.map fun row => row.1.id).Nodup

section

variable {l : Ledger} {slot : Slot} {c : Candidate} {id o : UInt64} {t : Option UInt64}
  {rows : List (Candidate × Option UInt64)}

theorem mem_query : c ∈ l.query slot ↔ (c, none) ∈ l.rows ∧ c.slot.key = slot.key := by
  simp only [query, List.mem_map, List.mem_filter, Bool.and_eq_true, decide_eq_true_eq]
  constructor
  · rintro ⟨⟨c', t⟩, ⟨hm, ht, hk⟩, rfl⟩
    obtain rfl := Option.isNone_iff_eq_none.1 ht
    exact ⟨hm, hk⟩
  · rintro ⟨hm, hk⟩
    exact ⟨(c, none), ⟨hm, rfl, hk⟩, rfl⟩

theorem exists_of_find? (h : find? id rows = some t) : ∃ c, (c, t) ∈ rows ∧ c.id = id := by
  induction rows with
  | nil => cases h
  | cons row rows ih =>
    obtain ⟨c, t'⟩ := row
    unfold find? at h
    split at h
    · rename_i hid
      obtain rfl := Option.some.inj h
      exact ⟨c, List.mem_cons_self .., hid⟩
    · obtain ⟨c', hm, hid⟩ := ih h
      exact ⟨c', List.mem_cons_of_mem _ hm, hid⟩

theorem find?_of_mem (hd : Distinct rows) (hm : (c, t) ∈ rows) : find? c.id rows = some t := by
  induction rows with
  | nil => cases hm
  | cons row rows ih =>
    obtain ⟨c', t'⟩ := row
    obtain ⟨hn, hd⟩ := List.nodup_cons.1 hd
    unfold find?
    rcases List.mem_cons.1 hm with he | hm
    · cases he
      exact if_pos rfl
    · have hne : c'.id ≠ c.id := fun he => hn (List.mem_map.2 ⟨_, hm, he.symm⟩)
      rw [if_neg hne]
      exact ih hd hm

theorem map_mark : (mark id o rows).map (·.1) = rows.map (·.1) := by
  induction rows with
  | nil => rfl
  | cons row rows ih =>
    obtain ⟨c, t⟩ := row
    unfold mark
    split
    · rfl
    · rw [List.map_cons, List.map_cons, ih]

theorem distinct_iff : Distinct rows ↔ ((rows.map (·.1)).map (·.id)).Nodup := by
  rw [List.map_map]
  rfl

theorem Distinct.mark (hd : Distinct rows) : Distinct (mark id o rows) := by
  rw [distinct_iff, map_mark, ← distinct_iff]
  exact hd

theorem mem_mark_of_ne (hne : c.id ≠ id) : (c, t) ∈ mark id o rows ↔ (c, t) ∈ rows := by
  induction rows with
  | nil => rfl
  | cons row rows ih =>
    obtain ⟨c', t'⟩ := row
    have head {s : Option UInt64} (he : c'.id = id) : (c, t) ≠ (c', s) := by
      intro h
      cases h
      exact hne he
    unfold mark
    split
    · rename_i he
      rw [List.mem_cons, List.mem_cons, or_iff_right (head he), or_iff_right (head he)]
    · rw [List.mem_cons, List.mem_cons, ih]

theorem mem_mark_self (hd : Distinct rows) (hm : (c, t) ∈ rows) :
    (c, some o) ∈ mark c.id o rows := by
  induction rows with
  | nil => cases hm
  | cons row rows ih =>
    obtain ⟨c', t'⟩ := row
    obtain ⟨hn, hd⟩ := List.nodup_cons.1 hd
    unfold mark
    rcases List.mem_cons.1 hm with he | hm
    · cases he
      rw [if_pos rfl]
      exact List.mem_cons_self ..
    · have hne : c'.id ≠ c.id := fun he => hn (List.mem_map.2 ⟨_, hm, he.symm⟩)
      rw [if_neg hne]
      exact List.mem_cons_of_mem _ (ih hd hm)

theorem Distinct.row_eq {c' : Candidate} {t' : Option UInt64} (hd : Distinct rows)
    (hm : (c, t) ∈ rows) (hm' : (c', t') ∈ rows) (hid : c.id = c'.id) : (c, t) = (c', t') :=
  List.inj_on_of_nodup_map hd hm hm' hid

end

/-- There are not more numbers than fit 64 bits. -/
theorem length_le_of_nodup {ids : List UInt64} (h : ids.Nodup) : ids.length ≤ UInt64.size := by
  have hfin : (ids.map UInt64.toFin).Nodup := h.map fun _ _ => UInt64.toFin_inj.1
  have hle := hfin.length_le_card
  rwa [List.length_map, Fintype.card_fin] at hle

/-- The ledger after the entry of a free candidate was accepted. -/
def accept (l : Ledger) (entry : Occupancy) : Ledger where
  rows := mark entry.candidate l.nextId l.rows
  entries := l.entries ++ [entry]
  nextId := l.nextId + 1

/-- All that the writer can do. -/
theorem create_cases (l : Ledger) (entry : Occupancy) :
    (∃ e, l.create entry = (l, .error e)) ∨ l.create entry = (l, .ok none) ∨
      ∃ c, (c, none) ∈ l.rows ∧ c.id = entry.candidate ∧
        l.create entry = (l.accept entry, .ok (some l.nextId)) := by
  unfold create
  split
  · exact .inl ⟨_, rfl⟩
  · exact .inr (.inl rfl)
  · rename_i h
    obtain ⟨c, hm, hid⟩ := exists_of_find? h
    exact .inr (.inr ⟨c, hm, hid, rfl⟩)

/-- The free candidates are those before, without the one that was taken. -/
theorem query_accept {l : Ledger} (entry : Occupancy) (slot : Slot) (hd : Distinct l.rows) :
    (l.accept entry).query slot = (l.query slot).filter fun c => c.id ≠ entry.candidate := by
  unfold query accept
  dsimp only
  generalize l.rows = rows at hd
  induction rows with
  | nil => rfl
  | cons row rows ih =>
    obtain ⟨c, t⟩ := row
    obtain ⟨hn, hd⟩ := List.nodup_cons.1 hd
    unfold mark
    split
    · rename_i hid
      have hrest : ((rows.filter fun x => x.2.isNone && decide (x.1.slot.key = slot.key)).map
          (·.1)).filter (fun c => decide (c.id ≠ entry.candidate)) =
          (rows.filter fun x => x.2.isNone && decide (x.1.slot.key = slot.key)).map (·.1) := by
        refine List.filter_eq_self.2 fun c' hc' => ?_
        obtain ⟨row, hrow, rfl⟩ := List.mem_map.1 hc'
        refine decide_eq_true fun he => hn ?_
        exact List.mem_map.2 ⟨row, List.mem_of_mem_filter hrow, he.trans hid.symm⟩
      rw [List.filter_cons_of_neg (by simp), List.filter_cons]
      split
      · rw [List.map_cons, List.filter_cons_of_neg (by simp [hid])]
        exact hrest.symm
      · exact hrest.symm
    · rename_i hid
      rw [List.filter_cons, List.filter_cons]
      split
      · rw [List.map_cons, List.map_cons, List.filter_cons_of_pos (by simpa using hid), ih hd]
      · exact ih hd

theorem query_congr {l : Ledger} {slot slot' : Slot} (h : slot.key = slot'.key) :
    l.query slot = l.query slot' := by
  unfold query
  rw [h]

theorem create_of_free {l : Ledger} {c : Candidate} {entry : Occupancy} (hd : Distinct l.rows)
    (hm : (c, none) ∈ l.rows) (hid : c.id = entry.candidate) :
    l.create entry = (l.accept entry, .ok (some l.nextId)) := by
  unfold create
  rw [← hid, find?_of_mem hd hm]
  rw [accept, hid]

theorem addTables_eq (l : Ledger) (slot : Slot) (firstId : UInt64) (count : Nat) :
    l.addTables slot firstId count =
      { l with rows := l.rows ++ (List.range count).map fun n => (tableAt slot firstId n, none) } := by
  have (cs : List Candidate) :
      cs.foldl add l = { l with rows := l.rows ++ cs.map fun c => (c, none) } := by
    induction cs generalizing l with
    | nil => simp
    | cons c cs ih => rw [List.foldl_cons, ih]; simp [add]
  rw [addTables, this, List.map_map]
  rfl

end Turnstile.Ledger
