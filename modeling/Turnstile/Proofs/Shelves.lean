import Turnstile.Proofs.Ledger
import Turnstile.Table

/-!
# Candidates on shelves

A `Rack` keeps the candidates of each slot key on a shelf of their own, the shelves in no particular
order. To take a candidate it looks for a shelf with the number first and for the row on this shelf
then. If no two candidates have the same number, the rack and the ledger answer alike
(`Rack.Shelves.create`), however the shelves are ordered (`Rack.Shelves.shuffle`).
-/

namespace Turnstile

namespace Table

variable {κ α : Type} [DecidableEq κ] {t t' : Table κ α}

theorem get?_of_perm (h : t'.entries.Perm t.entries) (k : κ) : t'.get? k = t.get? k := by
  cases hg : t.get? k with
  | none =>
    cases hg' : t'.get? k with
    | none => rfl
    | some a =>
      have hm := get?_eq_some_iff.2 (h.mem_iff.1 (get?_eq_some_iff.1 hg'))
      cases hg.symm.trans hm
  | some a => exact get?_eq_some_iff.2 (h.mem_iff.2 (get?_eq_some_iff.1 hg))

end Table

namespace Ledger

variable {l : Ledger} {rows : List (Candidate × Option UInt64)} {row : Candidate × Option UInt64}
  {id o : UInt64} {key : SlotKey} {c : Candidate}

/-- The rows of a key. -/
def rowsOf (key : SlotKey) (rows : List (Candidate × Option UInt64)) :
    List (Candidate × Option UInt64) :=
  rows.filter fun row => row.1.slot.key = key

theorem Distinct.rowsOf (hd : Distinct rows) : Distinct (rowsOf key rows) :=
  hd.sublist (List.filter_sublist.map _)

theorem mem_rowsOf : row ∈ rowsOf key rows ↔ row ∈ rows ∧ row.1.slot.key = key := by
  rw [rowsOf, List.mem_filter, decide_eq_true_iff]

/-- With different numbers the first row of a number is the only one. -/
theorem mark_eq_map (hd : Distinct rows) :
    mark id o rows = rows.map fun row => if row.1.id = id then (row.1, some o) else row := by
  induction rows with
  | nil => rfl
  | cons row rows ih =>
    obtain ⟨c, t⟩ := row
    obtain ⟨hn, hd⟩ := List.nodup_cons.1 hd
    unfold mark
    by_cases hid : c.id = id
    · have hrest : rows.map (fun row => if row.1.id = id then (row.1, some o) else row) = rows := by
        refine (List.map_congr_left fun row hrow => if_neg fun he => hn ?_).trans (List.map_id _)
        exact List.mem_map.2 ⟨row, hrow, he.trans hid.symm⟩
      rw [if_pos hid, List.map_cons, if_pos hid, hrest]
    · rw [if_neg hid, List.map_cons, if_neg hid, ih hd]

/-- One shelf after a row was marked, on this shelf or on another. -/
theorem rowsOf_mark (hd : Distinct rows) :
    rowsOf key (mark id o rows) = mark id o (rowsOf key rows) := by
  rw [mark_eq_map hd, mark_eq_map hd.rowsOf]
  unfold rowsOf
  rw [List.filter_map]
  refine congrArg (List.map _) (List.filter_congr fun row _ => ?_)
  dsimp only [Function.comp]
  split <;> rfl

theorem mark_of_not_mem (h : ∀ row ∈ rows, row.1.id ≠ id) : mark id o rows = rows := by
  induction rows with
  | nil => rfl
  | cons row rows ih =>
    obtain ⟨c, t⟩ := row
    obtain ⟨hc, hrows⟩ := List.forall_mem_cons.1 h
    unfold mark
    rw [if_neg hc, ih hrows]

theorem find?_eq_none : find? id rows = none ↔ ∀ row ∈ rows, row.1.id ≠ id := by
  induction rows with
  | nil => simp [find?]
  | cons row rows ih =>
    obtain ⟨c, t⟩ := row
    unfold find?
    by_cases hid : c.id = id <;> simp [hid, ih]

/-! ## The rack -/

structure Rack where
  shelves : Table SlotKey (List (Candidate × Option UInt64))
  entries : List Occupancy
  nextId : UInt64

namespace Rack

def empty : Rack := ⟨.empty, [], 1⟩

def shelf (r : Rack) (key : SlotKey) : List (Candidate × Option UInt64) :=
  (r.shelves.get? key).getD []

def add (r : Rack) (c : Candidate) : Rack :=
  { r with shelves := r.shelves.insert c.slot.key (r.shelf c.slot.key ++ [(c, none)]) }

def addTables (r : Rack) (slot : Slot) (firstId : UInt64) (count : Nat) : Rack :=
  ((List.range count).map (tableAt slot firstId)).foldl add r

def query (r : Rack) (slot : Slot) : List Candidate :=
  ((r.shelf slot.key).filter fun row => row.2.isNone).map (·.1)

/-- The key of the first shelf with a candidate of that number. -/
def keyOf? (r : Rack) (id : UInt64) : Option SlotKey :=
  (r.shelves.entries.find? fun e => e.2.any fun row => row.1.id = id).map (·.1)

/-- Takes the candidate of an entry, if it is free: the number of the occupancy. -/
def create (r : Rack) (entry : Occupancy) : Rack × Except StoreError (Option UInt64) :=
  match r.keyOf? entry.candidate with
  | none => (r, .error (unknownCandidate entry.candidate))
  | some key =>
    match find? entry.candidate (r.shelf key) with
    | none => (r, .error (unknownCandidate entry.candidate))
    | some (some _) => (r, .ok none)
    | some none =>
      ({ shelves := r.shelves.insert key (mark entry.candidate r.nextId (r.shelf key))
         entries := r.entries ++ [entry]
         nextId := r.nextId + 1 }, .ok (some r.nextId))

/-- The rack holds what is in the ledger. -/
structure Shelves (r : Rack) (l : Ledger) : Prop where
  shelf : ∀ key, r.shelf key = rowsOf key l.rows
  entries : r.entries = l.entries
  nextId : r.nextId = l.nextId

variable {r r' : Rack} {slot : Slot} {entry : Occupancy}

theorem shelf_insert (key' : SlotKey) :
    ({ r with shelves := r.shelves.insert key rows } : Rack).shelf key' =
      if key' = key then rows else r.shelf key' := by
  unfold shelf
  rw [Table.get?_insert]
  split <;> rfl

theorem keyOf?_eq_none : r.keyOf? id = none ↔ ∀ key, ∀ row ∈ r.shelf key, row.1.id ≠ id := by
  unfold keyOf?
  rw [Option.map_eq_none_iff, List.find?_eq_none]
  constructor
  · intro h key row hrow
    unfold shelf at hrow
    cases hg : r.shelves.get? key with
    | none =>
      rw [hg] at hrow
      cases hrow
    | some rows =>
      rw [hg] at hrow
      have hnone := h (key, rows) (Table.get?_eq_some_iff.1 hg)
      simp only [List.any_eq_true, decide_eq_true_eq, not_exists, not_and] at hnone
      exact hnone row hrow
  · rintro h ⟨key, rows⟩ he
    have hg : r.shelves.get? key = some rows := Table.get?_eq_some_iff.2 he
    simp only [List.any_eq_true, decide_eq_true_eq, not_exists, not_and]
    intro row hrow
    refine h key row ?_
    rwa [shelf, hg]

theorem exists_of_keyOf? (h : r.keyOf? id = some key) : ∃ row ∈ r.shelf key, row.1.id = id := by
  obtain ⟨⟨key', rows⟩, he, rfl⟩ := Option.map_eq_some_iff.1 h
  have hg : r.shelves.get? key' = some rows :=
    Table.get?_eq_some_iff.2 (List.mem_of_find?_eq_some he)
  have hany := List.find?_some he
  obtain ⟨row, hrow, hid⟩ := List.any_eq_true.1 hany
  refine ⟨row, ?_, of_decide_eq_true hid⟩
  rwa [shelf, hg]

namespace Shelves

theorem start : Shelves empty .empty where
  shelf _ := rfl
  entries := rfl
  nextId := rfl

/-- The order of the shelves makes no difference. -/
theorem shuffle (h : Shelves r l) (hp : r'.shelves.entries.Perm r.shelves.entries)
    (he : r'.entries = r.entries) (hn : r'.nextId = r.nextId) : Shelves r' l where
  shelf key := by
    rw [← h.shelf key, Rack.shelf, Rack.shelf, Table.get?_of_perm hp]
  entries := he.trans h.entries
  nextId := hn.trans h.nextId

theorem add (h : Shelves r l) (c : Candidate) : Shelves (r.add c) (l.add c) where
  shelf key := by
    show ({ r with shelves := _ } : Rack).shelf key = rowsOf key (l.rows ++ [(c, none)])
    rw [shelf_insert, rowsOf, List.filter_append]
    by_cases hk : key = c.slot.key
    · subst hk
      rw [if_pos rfl, h.shelf]
      simp [rowsOf]
    · rw [if_neg hk, h.shelf]
      simp [rowsOf, Ne.symm hk]
  entries := h.entries
  nextId := h.nextId

theorem addTables (h : Shelves r l) (slot : Slot) (firstId : UInt64) (count : Nat) :
    Shelves (r.addTables slot firstId count) (l.addTables slot firstId count) := by
  unfold Rack.addTables Ledger.addTables
  generalize (List.range count).map (tableAt slot firstId) = cs
  induction cs generalizing r l with
  | nil => exact h
  | cons c cs ih => exact ih (h.add c)

theorem query (h : Shelves r l) (slot : Slot) : r.query slot = l.query slot := by
  unfold Rack.query Ledger.query
  rw [h.shelf, rowsOf, List.filter_filter]

/-- The two searches find the row that the ledger finds, on whatever shelf they start. -/
theorem find (h : Shelves r l) (hd : Distinct l.rows) :
    (r.keyOf? id).bind (fun key => find? id (r.shelf key)) = find? id l.rows := by
  cases hk : r.keyOf? id with
  | none =>
    refine Eq.symm (find?_eq_none.2 fun row hrow => ?_)
    refine keyOf?_eq_none.1 hk row.1.slot.key row ?_
    rw [h.shelf]
    exact mem_rowsOf.2 ⟨hrow, rfl⟩
  | some key =>
    obtain ⟨⟨c, t⟩, hrow, rfl⟩ := exists_of_keyOf? hk
    rw [h.shelf] at hrow
    have hshelf : find? c.id (r.shelf key) = some t := by
      rw [h.shelf]
      exact find?_of_mem hd.rowsOf hrow
    rw [find?_of_mem hd (mem_rowsOf.1 hrow).1]
    exact hshelf

/-- Both accept an entry or both do not, and then the rack holds what is in the ledger. -/
theorem create (h : Shelves r l) (hd : Distinct l.rows) (entry : Occupancy) :
    (r.create entry).2 = (l.create entry).2 ∧ Shelves (r.create entry).1 (l.create entry).1 := by
  have hfind : _ = find? entry.candidate l.rows := h.find hd
  unfold Rack.create Ledger.create
  cases hk : r.keyOf? entry.candidate with
  | none =>
    rw [hk] at hfind
    rw [← hfind]
    exact ⟨rfl, h⟩
  | some key =>
    rw [hk, Option.bind_some] at hfind
    dsimp only
    rw [hfind]
    rcases hl : find? entry.candidate l.rows with _ | _ | n
    · exact ⟨rfl, h⟩
    · refine ⟨by rw [h.nextId], ?_, by rw [h.entries], by rw [h.nextId]⟩
      intro key'
      obtain ⟨row, hrow, hid⟩ := exists_of_keyOf? hk
      rw [h.shelf] at hrow
      show ({ r with shelves := _ } : Rack).shelf key' = _
      rw [shelf_insert, rowsOf_mark hd, h.nextId, h.shelf, h.shelf]
      by_cases hkey : key' = key
      · rw [if_pos hkey, hkey]
      · rw [if_neg hkey]
        -- The number is on the shelf of `key`, and on no other.
        refine (mark_of_not_mem fun row' hrow' he => hkey ?_).symm
        have hsame : row = row' :=
          hd.row_eq (mem_rowsOf.1 hrow).1 (mem_rowsOf.1 hrow').1 (hid.trans he.symm)
        rw [← (mem_rowsOf.1 hrow').2, ← (mem_rowsOf.1 hrow).2, hsame]
    · exact ⟨rfl, h⟩

end Shelves

end Rack

end Ledger

end Turnstile
