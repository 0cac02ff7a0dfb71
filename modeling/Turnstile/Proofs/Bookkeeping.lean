import Turnstile.Proofs.Shelves

/-!
# Every history of the ledger

What a ledger answers depends on two lists that can be read off the calls so far: the candidates
that were added and the entries that were accepted. `Ledger.Records` says how they determine its
rows, and every call keeps it (`Ledger.Records.step`), as long as no two candidates have the same
number. Free are the candidates that were added and not accepted; all answers are stated in terms of
these (`Ledger.books_kept`).
-/

namespace Turnstile.Ledger

inductive Op
  | add (c : Candidate)
  | addTables (slot : Slot) (firstId : UInt64) (count : Nat)
  | query (slot : Slot)
  | create (entry : Occupancy)

/-- The candidates that a call adds. -/
def Op.added : Op → List Candidate
  | add c => [c]
  | addTables slot firstId count => (List.range count).map (tableAt slot firstId)
  | query _ | create _ => []

/-- The entry that a call makes the ledger accept, and its number. -/
def Op.accepted? (l : Ledger) : Op → Option (Occupancy × UInt64)
  | create entry => (l.create entry).2.toOption.join.map fun n => (entry, n)
  | add _ | addTables _ _ _ | query _ => none

def step (l : Ledger) : Op → Ledger
  | .add c => l.add c
  | .addTables slot firstId count => l.addTables slot firstId count
  | .query _ => l
  | .create entry => (l.create entry).1

def run (ops : List Op) : Ledger := ops.foldl step empty

/-- The candidates that were added, oldest first. -/
def added (ops : List Op) : List Candidate := ops.flatMap Op.added

/-- The entries that are accepted from `l` on, with their numbers, oldest first. -/
def acceptedFrom : Ledger → List Op → List (Occupancy × UInt64)
  | _, [] => []
  | l, op :: ops => (op.accepted? l).toList ++ acceptedFrom (l.step op) ops

def accepted (ops : List Op) : List (Occupancy × UInt64) := acceptedFrom empty ops

/-- The candidates that were added and not accepted, oldest first. -/
def free (ops : List Op) : List Candidate :=
  (added ops).filter fun c => c.id ∉ (accepted ops).map (·.1.candidate)

namespace Rack

def step (r : Rack) : Op → Rack
  | .add c => r.add c
  | .addTables slot firstId count => r.addTables slot firstId count
  | .query _ => r
  | .create entry => (r.create entry).1

/-- A rack after the calls, its shelves in any order at any time. -/
inductive Reach : List Op → Rack → Prop
  | start : Reach [] empty
  | step {ops : List Op} {r : Rack} (op : Op) : Reach ops r → Reach (ops ++ [op]) (r.step op)
  | shuffle {ops : List Op} {r r' : Rack} : Reach ops r →
    r'.shelves.entries.Perm r.shelves.entries → r'.entries = r.entries → r'.nextId = r.nextId →
    Reach ops r'

end Rack

section

variable {l : Ledger} {ops : List Op} {op : Op} {cs : List Candidate}
  {bs : List (Occupancy × UInt64)} {c : Candidate} {entry : Occupancy} {id n : UInt64}

theorem run_concat : run (ops ++ [op]) = (run ops).step op := by
  simp [run]

theorem added_concat : added (ops ++ [op]) = added ops ++ op.added := by
  simp [added]

theorem acceptedFrom_append {ops' : List Op} :
    acceptedFrom l (ops ++ ops') = acceptedFrom l ops ++ acceptedFrom (ops.foldl step l) ops' := by
  induction ops generalizing l with
  | nil => rfl
  | cons op ops ih =>
    rw [List.cons_append, acceptedFrom, acceptedFrom, ih, List.append_assoc, List.foldl_cons]

theorem accepted_concat :
    accepted (ops ++ [op]) = accepted ops ++ (op.accepted? (run ops)).toList := by
  rw [accepted, acceptedFrom_append, acceptedFrom, acceptedFrom, List.append_nil]
  rfl

/-! ## What the rows say -/

/-- The number under which a candidate was accepted. -/
def number? (bs : List (Occupancy × UInt64)) (id : UInt64) : Option UInt64 :=
  (bs.find? fun b => b.1.candidate = id).map (·.2)

theorem number?_eq_none : number? bs id = none ↔ id ∉ bs.map (·.1.candidate) := by
  unfold number?
  rw [Option.map_eq_none_iff, List.find?_eq_none]
  simp only [decide_eq_true_eq, List.mem_map, not_exists, not_and]

/-- The ledger has the candidates `cs` and has accepted the entries `bs`. -/
structure Records (l : Ledger) (cs : List Candidate) (bs : List (Occupancy × UInt64)) : Prop where
  rows : l.rows = cs.map fun c => (c, number? bs c.id)
  entries : l.entries = bs.map (·.1)
  nextId : l.nextId = UInt64.ofNat (bs.length + 1)
  /-- An entry is accepted for a candidate that was added, and not twice. -/
  known : ∀ b ∈ bs, b.1.candidate ∈ cs.map (·.id)
  once : (bs.map (·.1.candidate)).Nodup

namespace Records

theorem start : Records .empty [] [] where
  rows := List.map_nil.symm
  entries := List.map_nil.symm
  nextId := rfl
  known _ hb := absurd hb List.not_mem_nil
  once := List.nodup_nil

theorem distinct (h : Records l cs bs) (hd : (cs.map (·.id)).Nodup) : Distinct l.rows := by
  rw [distinct_iff, h.rows, List.map_map]
  simpa [Function.comp_def] using hd

theorem addAll (h : Records l cs bs) {ds : List Candidate} (hd : ((cs ++ ds).map (·.id)).Nodup) :
    Records { l with rows := l.rows ++ ds.map fun c => (c, none) } (cs ++ ds) bs where
  rows := by
    rw [List.map_append, ← h.rows]
    refine congrArg (l.rows ++ ·) (List.map_congr_left fun d hm => ?_)
    have hnew : d.id ∉ bs.map (·.1.candidate) := by
      intro hb
      obtain ⟨b, hb, he⟩ := List.mem_map.1 hb
      rw [List.map_append, List.nodup_append] at hd
      exact hd.2.2 _ (h.known b hb) _ (List.mem_map.2 ⟨d, hm, rfl⟩) he
    rw [number?_eq_none.2 hnew]
  entries := h.entries
  nextId := h.nextId
  known b hb := by
    rw [List.map_append]
    exact List.mem_append_left _ (h.known b hb)
  once := h.once

theorem find?_eq (h : Records l cs bs) (hd : (cs.map (·.id)).Nodup) (hc : c ∈ cs) :
    find? c.id l.rows = some (number? bs c.id) := by
  refine find?_of_mem (h.distinct hd) ?_
  rw [h.rows]
  exact List.mem_map.2 ⟨c, hc, rfl⟩

/-- All that a call of the writer can do: the candidate is unknown, or accepted already, or free. -/
theorem create_cases (h : Records l cs bs) (hd : (cs.map (·.id)).Nodup) (entry : Occupancy) :
    (entry.candidate ∉ cs.map (·.id) ∧
        l.create entry = (l, .error (unknownCandidate entry.candidate))) ∨
      (entry.candidate ∈ bs.map (·.1.candidate) ∧ l.create entry = (l, .ok none)) ∨
      entry.candidate ∈ cs.map (·.id) ∧ entry.candidate ∉ bs.map (·.1.candidate) ∧
        l.create entry = (l.accept entry, .ok (some l.nextId)) := by
  by_cases hc : entry.candidate ∈ cs.map (·.id)
  · obtain ⟨c, hm, hid⟩ := List.mem_map.1 hc
    have hfind := h.find?_eq hd hm
    rw [hid] at hfind
    by_cases hb : entry.candidate ∈ bs.map (·.1.candidate)
    · refine .inr (.inl ⟨hb, ?_⟩)
      obtain ⟨n, hn⟩ := Option.ne_none_iff_exists'.1 fun he => number?_eq_none.1 he hb
      unfold Ledger.create
      rw [hfind, hn]
    · refine .inr (.inr ⟨hc, hb, ?_⟩)
      unfold Ledger.create
      rw [hfind, number?_eq_none.2 hb]
      rfl
  · refine .inl ⟨hc, ?_⟩
    have hfind : find? entry.candidate l.rows = none := by
      rw [find?_eq_none, h.rows]
      intro row hrow he
      obtain ⟨c, hm, rfl⟩ := List.mem_map.1 hrow
      exact hc (List.mem_map.2 ⟨c, hm, he⟩)
    unfold Ledger.create
    rw [hfind]

theorem candidates_subset (h : Records l cs bs) :
    bs.map (·.1.candidate) ⊆ cs.map (·.id) := by
  intro id hid
  obtain ⟨b, hb, rfl⟩ := List.mem_map.1 hid
  exact h.known b hb

theorem create_eq_some_iff (h : Records l cs bs) (hd : (cs.map (·.id)).Nodup) :
    (l.create entry).2 = .ok (some n) ↔ (entry.candidate ∈ cs.map (·.id) ∧
      entry.candidate ∉ bs.map (·.1.candidate)) ∧ n = UInt64.ofNat (bs.length + 1) := by
  rw [← h.nextId]
  obtain ⟨hc, he⟩ | ⟨hb, he⟩ | ⟨hc, hb, he⟩ := h.create_cases hd entry <;> rw [he]
  · simp [hc]
  · simp [hb]
  · simp [hc, hb, eq_comm]

theorem create_eq_none_iff (h : Records l cs bs) (hd : (cs.map (·.id)).Nodup) :
    (l.create entry).2 = .ok none ↔ entry.candidate ∈ bs.map (·.1.candidate) := by
  obtain ⟨hc, he⟩ | ⟨hb, he⟩ | ⟨hc, hb, he⟩ := h.create_cases hd entry <;> rw [he]
  · have hb : entry.candidate ∉ bs.map (·.1.candidate) := fun hb => hc (h.candidates_subset hb)
    simp [hb]
  · simp [hb]
  · simp [hb]

theorem create_eq_error_iff (h : Records l cs bs) (hd : (cs.map (·.id)).Nodup) {e : StoreError} :
    (l.create entry).2 = .error e ↔
      entry.candidate ∉ cs.map (·.id) ∧ e = unknownCandidate entry.candidate := by
  obtain ⟨hc, he⟩ | ⟨hb, he⟩ | ⟨hc, hb, he⟩ := h.create_cases hd entry <;> rw [he]
  · simp [hc, eq_comm]
  · simp [h.candidates_subset hb]
  · simp [hc]

theorem create_of_some (h : Records l cs bs) (hd : (cs.map (·.id)).Nodup)
    (hn : (l.create entry).2 = .ok (some n)) : (l.create entry).1 = l.accept entry := by
  obtain ⟨-, he⟩ | ⟨-, he⟩ | ⟨-, -, he⟩ := h.create_cases hd entry <;> rw [he] at hn ⊢ <;> cases hn

theorem create_of_not_some (h : Records l cs bs) (hd : (cs.map (·.id)).Nodup)
    (hn : ∀ n, (l.create entry).2 ≠ .ok (some n)) : (l.create entry).1 = l := by
  obtain ⟨-, he⟩ | ⟨-, he⟩ | ⟨-, -, he⟩ := h.create_cases hd entry <;> rw [he] at hn ⊢
  exact absurd rfl (hn _)

theorem accept (h : Records l cs bs) (hd : (cs.map (·.id)).Nodup)
    (hc : entry.candidate ∈ cs.map (·.id)) (hb : entry.candidate ∉ bs.map (·.1.candidate)) :
    Records (l.accept entry) cs (bs ++ [(entry, l.nextId)]) where
  rows := by
    show mark entry.candidate l.nextId l.rows = _
    rw [mark_eq_map (h.distinct hd), h.rows, List.map_map]
    refine List.map_congr_left fun c _ => ?_
    unfold number?
    rw [List.find?_append]
    by_cases hid : c.id = entry.candidate
    · have hnone : bs.find? (fun b => b.1.candidate = entry.candidate) = none :=
        Option.map_eq_none_iff.1 (number?_eq_none.2 hb)
      simp [hid, hnone]
    · simp [hid, Ne.symm hid]
  entries := by
    show l.entries ++ [entry] = _
    rw [h.entries, List.map_append]
    rfl
  nextId := by
    show l.nextId + 1 = _
    rw [h.nextId, List.length_append, List.length_singleton, UInt64.ofNat_add (bs.length + 1)]
    rfl
  known b hm := by
    rcases List.mem_append.1 hm with hm | hm
    · exact h.known b hm
    · obtain rfl := List.mem_singleton.1 hm
      exact hc
  once := by
    rw [List.map_append]
    refine List.nodup_append.2 ⟨h.once, List.nodup_singleton _, ?_⟩
    rintro id hid _ hm rfl
    obtain rfl := List.mem_singleton.1 hm
    exact hb hid

/-- One call. -/
theorem step (h : Records l cs bs) (op : Op) (hd : ((cs ++ op.added).map (·.id)).Nodup) :
    Records (l.step op) (cs ++ op.added) (bs ++ (op.accepted? l).toList) := by
  cases op with
  | add c =>
    show Records (l.add c) (cs ++ [c]) (bs ++ [])
    rw [List.append_nil]
    exact h.addAll hd
  | addTables slot firstId count =>
    have hrows := h.addAll hd
    rw [Op.added, List.map_map] at hrows
    show Records (l.addTables slot firstId count) _ (bs ++ [])
    rw [addTables_eq, List.append_nil]
    exact hrows
  | query slot =>
    show Records l (cs ++ []) (bs ++ [])
    rw [List.append_nil, List.append_nil]
    exact h
  | create entry =>
    rw [Op.added, List.append_nil] at hd ⊢
    simp only [Ledger.step, Op.accepted?]
    obtain ⟨-, he⟩ | ⟨-, he⟩ | ⟨hc, hb, he⟩ := h.create_cases hd entry
    · rw [he]
      exact (List.append_nil bs).symm ▸ h
    · rw [he]
      exact (List.append_nil bs).symm ▸ h
    · rw [he]
      exact h.accept hd hc hb

/-- Every history. -/
theorem run (hd : ((added ops).map (·.id)).Nodup) :
    Records (run ops) (added ops) (accepted ops) := by
  induction ops using List.reverseRecOn with
  | nil => exact start
  | append_singleton ops op ih =>
    rw [added_concat] at hd ⊢
    rw [run_concat, accepted_concat]
    refine (ih ?_).step op hd
    rw [List.map_append] at hd
    exact (List.nodup_append.1 hd).1

theorem query (h : Records l cs bs) (slot : Slot) :
    l.query slot =
      (cs.filter fun c => c.id ∉ bs.map (·.1.candidate)).filter fun c => c.slot.key = slot.key := by
  unfold Ledger.query
  rw [h.rows, List.filter_map, List.map_map, List.filter_filter]
  refine (List.map_id _).trans (List.filter_congr fun c _ => ?_)
  rw [Bool.and_comm, Bool.eq_iff_iff]
  simp [number?_eq_none, Option.isNone_iff_eq_none]

/-- No more entries are accepted than there are numbers. -/
theorem length_lt (h : Records l cs bs) (hb : entry.candidate ∉ bs.map (·.1.candidate)) :
    bs.length < UInt64.size := by
  have hle := length_le_of_nodup (List.nodup_cons.2 ⟨hb, h.once⟩)
  rwa [List.length_cons, List.length_map] at hle

end Records

/-- However its shelves are ordered, a rack holds what is in the ledger. -/
theorem Rack.Reach.shelves {r : Rack} (h : Reach ops r) (hd : ((added ops).map (·.id)).Nodup) :
    Shelves r (run ops) := by
  induction h with
  | start => exact .start
  | @step ops r op hr ih =>
    rw [added_concat, List.map_append] at hd
    have hpre := (List.nodup_append.1 hd).1
    rw [run_concat]
    cases op with
    | add c => exact (ih hpre).add c
    | addTables slot firstId count => exact (ih hpre).addTables slot firstId count
    | query slot => exact ih hpre
    | create entry => exact ((ih hpre).create ((Records.run hpre).distinct hpre) entry).2
  | shuffle _ hp he hn ih => exact (ih hd).shuffle hp he hn

theorem exists_free : (∃ c ∈ free ops, c.id = id) ↔
    id ∈ (added ops).map (·.id) ∧ id ∉ (accepted ops).map (·.1.candidate) := by
  simp only [free, List.mem_filter, decide_eq_true_iff]
  constructor
  · rintro ⟨c, ⟨hc, hb⟩, rfl⟩
    exact ⟨List.mem_map.2 ⟨c, hc, rfl⟩, hb⟩
  · rintro ⟨hc, hb⟩
    obtain ⟨c, hm, rfl⟩ := List.mem_map.1 hc
    exact ⟨c, ⟨hm, hb⟩, rfl⟩

end

/-! ## The answers -/

/-- The answers after the calls `ops`, in terms of the candidates added and the entries accepted. -/
structure Kept (ops : List Op) : Prop where
  /-- A query returns the free candidates of the key in the order in which they were added. -/
  query (slot : Slot) : (run ops).query slot = (free ops).filter fun c => c.slot.key = slot.key
  entries : (run ops).entries = (accepted ops).map (·.1)
  /-- An entry is accepted if its candidate is free, in whatever slot, and not otherwise. Its number
  is one more than there were entries accepted before. -/
  takes (entry : Occupancy) (n : UInt64) : ((run ops).create entry).2 = .ok (some n) ↔
    (∃ c ∈ free ops, c.id = entry.candidate) ∧ n = UInt64.ofNat ((accepted ops).length + 1)
  /-- Only the entry that takes the last of all numbers has the number zero. -/
  number (entry : Occupancy) (n : UInt64) : ((run ops).create entry).2 = .ok (some n) →
    n.toNat = (accepted ops).length + 1 ∨ (accepted ops).length + 1 = UInt64.size
  /-- Then this candidate is missing in the queries and this entry is the last one. Nothing else is
  different. -/
  taken (entry : Occupancy) (n : UInt64) : ((run ops).create entry).2 = .ok (some n) →
    ∃ c ∈ free ops, c.id = entry.candidate ∧
      (∀ slot, ((run ops).create entry).1.query slot = ((run ops).query slot).erase c) ∧
      ((run ops).create entry).1.entries = (run ops).entries ++ [entry]
  refuses (entry : Occupancy) : ((run ops).create entry).2 = .ok none ↔
    ∃ b ∈ accepted ops, b.1.candidate = entry.candidate
  unknown (entry : Occupancy) (e : StoreError) : ((run ops).create entry).2 = .error e ↔
    (∀ c ∈ added ops, c.id ≠ entry.candidate) ∧ e = unknownCandidate entry.candidate
  unchanged (entry : Occupancy) : (∀ n, ((run ops).create entry).2 ≠ .ok (some n)) →
    ((run ops).create entry).1 = run ops
  /-- All this is true of a rack too, in whatever order its shelves are at each call. -/
  racks (r : Rack) : Rack.Reach ops r →
    (∀ slot, r.query slot = (run ops).query slot) ∧ r.entries = (run ops).entries ∧
      ∀ entry, (r.create entry).2 = ((run ops).create entry).2 ∧
        (∀ slot, (r.create entry).1.query slot = ((run ops).create entry).1.query slot) ∧
        (r.create entry).1.entries = ((run ops).create entry).1.entries

variable {l : Ledger} {cs : List Candidate} {bs : List (Occupancy × UInt64)}

/-- A free candidate is the only one with its number, in all queries. -/
theorem Records.query_accept (h : Records l cs bs) (hd : (cs.map (·.id)).Nodup) {entry : Occupancy}
    {c : Candidate} (hc : c ∈ cs) (hid : c.id = entry.candidate) (slot : Slot) :
    (l.accept entry).query slot = (l.query slot).erase c := by
  have hnodup : (l.query slot).Nodup := by
    rw [h.query]
    exact ((List.Nodup.of_map _ hd).filter _).filter _
  rw [Ledger.query_accept entry slot (h.distinct hd), hnodup.erase_eq_filter]
  refine List.filter_congr fun d hm => ?_
  rw [h.query] at hm
  have hdc : d.id = c.id ↔ d = c := by
    refine ⟨List.inj_on_of_nodup_map hd ?_ hc, congrArg _⟩
    exact List.mem_of_mem_filter (List.mem_of_mem_filter hm)
  rw [← hid, bne, Bool.eq_iff_iff]
  simp [hdc]

/-- Every history of calls keeps the books, if all candidates have different numbers. -/
theorem books_kept (ops : List Op) (hd : ((added ops).map (·.id)).Nodup) : Kept ops := by
  have h : Records (run ops) (added ops) (accepted ops) := .run hd
  have htakes (entry : Occupancy) (n : UInt64) : ((run ops).create entry).2 = .ok (some n) ↔
      (∃ c ∈ free ops, c.id = entry.candidate) ∧ n = UInt64.ofNat ((accepted ops).length + 1) := by
    rw [exists_free]
    exact h.create_eq_some_iff hd
  exact {
    query := h.query
    entries := h.entries
    takes := htakes
    number := fun entry n hn => by
      obtain ⟨hfree, rfl⟩ := (htakes entry n).1 hn
      have hlt : (accepted ops).length < 18_446_744_073_709_551_616 :=
        h.length_lt (exists_free.1 hfree).2
      show _ ∨ _ = 18_446_744_073_709_551_616
      rw [UInt64.toNat_ofNat']
      omega
    taken := fun entry n hn => by
      obtain ⟨c, hc, hid⟩ := ((htakes entry n).1 hn).1
      rw [h.create_of_some hd hn]
      exact ⟨c, hc, hid, h.query_accept hd (List.mem_of_mem_filter hc) hid, rfl⟩
    refuses := fun entry => by
      rw [← List.mem_map]
      exact h.create_eq_none_iff hd
    unknown := fun entry e => by
      rw [h.create_eq_error_iff hd, List.mem_map]
      push Not
      rfl
    unchanged := fun entry => h.create_of_not_some hd
    racks := fun r hr => by
      have hs := hr.shelves hd
      refine ⟨hs.query, hs.entries, fun entry => ?_⟩
      have hc := hs.create (h.distinct hd) entry
      exact ⟨hc.1, hc.2.query, hc.2.entries⟩ }

/-- Two tables of one slot and one of another, with the second of the two taken. -/
def sampleOps : List Op :=
  [.addTables ⟨1, default, default⟩ 10 2, .add ⟨7, 2, 1, default, default⟩,
    .create ⟨11, 1, 2, 42, .occupied, default, none⟩, .query ⟨1, default, default⟩]

theorem sample_kept : ((added sampleOps).map (·.id)).Nodup ∧
    (free sampleOps).map (·.id) = [10, 7] ∧ Kept sampleOps :=
  ⟨by decide, by decide, books_kept sampleOps (by decide)⟩

end Turnstile.Ledger
