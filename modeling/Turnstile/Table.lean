/-!
# Tables

A table maps finitely many keys to values and keeps the order in which the keys came. `get?_insert`,
`get?_erase` and `get?_retain` say what each operation does to the values that can be looked up.
-/

namespace Turnstile

structure Table (κ α : Type) where
  entries : List (κ × α)
  distinct : (entries.map (·.1)).Nodup

namespace Table

variable {κ α : Type} [DecidableEq κ]

def empty : Table κ α := ⟨[], by simp⟩

instance : Inhabited (Table κ α) := ⟨empty⟩

def find? (k : κ) : List (κ × α) → Option α
  | [] => none
  | (k', a) :: rest => if k' = k then some a else find? k rest

def get? (t : Table κ α) (k : κ) : Option α := find? k t.entries

def contains (t : Table κ α) (k : κ) : Bool := (t.get? k).isSome

def size (t : Table κ α) : Nat := t.entries.length

def put (k : κ) (a : α) : List (κ × α) → List (κ × α)
  | [] => [(k, a)]
  | (k', a') :: rest => if k' = k then (k, a) :: rest else (k', a') :: put k a rest

theorem mem_keys_put {k k' : κ} {a : α} {l : List (κ × α)} :
    k' ∈ (put k a l).map (·.1) ↔ k' = k ∨ k' ∈ l.map (·.1) := by
  induction l with
  | nil => simp [put]
  | cons p rest ih =>
    obtain ⟨k₀, a₀⟩ := p
    unfold put
    split
    · rename_i h
      subst h
      simp
    · rename_i h
      simp only [List.map_cons, List.mem_cons, ih]
      grind

theorem nodup_keys_put {k : κ} {a : α} {l : List (κ × α)} (h : (l.map (·.1)).Nodup) :
    ((put k a l).map (·.1)).Nodup := by
  induction l with
  | nil => simp [put]
  | cons p rest ih =>
    obtain ⟨k₀, a₀⟩ := p
    simp only [List.map_cons, List.nodup_cons] at h
    unfold put
    split
    · rename_i hk
      subst hk
      simpa using h
    · rename_i hk
      simp only [List.map_cons, List.nodup_cons, mem_keys_put]
      exact ⟨fun hm => hm.elim hk h.1, ih h.2⟩

/-- Gives the key `k` the value `a`, in its old place if it had a value before. -/
def insert (t : Table κ α) (k : κ) (a : α) : Table κ α :=
  ⟨put k a t.entries, nodup_keys_put t.distinct⟩

/-- Keeps the entries that satisfy `p`. -/
def retain (t : Table κ α) (p : κ → α → Bool) : Table κ α :=
  ⟨t.entries.filter fun e => p e.1 e.2, t.distinct.sublist (List.filter_sublist.map _)⟩

def erase (t : Table κ α) (k : κ) : Table κ α := t.retain fun k' _ => k' != k

@[simp] theorem get?_empty (k : κ) : (empty : Table κ α).get? k = none := rfl

theorem find?_put (k k' : κ) (a : α) (l : List (κ × α)) :
    find? k' (put k a l) = if k' = k then some a else find? k' l := by
  induction l with
  | nil =>
    by_cases h : k = k'
    · simp [put, find?, h]
    · simp [put, find?, h, Ne.symm h]
  | cons p rest ih =>
    obtain ⟨k₀, a₀⟩ := p
    unfold put
    split
    · rename_i h
      subst h
      by_cases h : k₀ = k'
      · simp [find?, h]
      · simp [find?, h, Ne.symm h]
    · rename_i h
      simp only [find?, ih]
      grind

theorem get?_insert (t : Table κ α) (k k' : κ) (a : α) :
    (t.insert k a).get? k' = if k' = k then some a else t.get? k' :=
  find?_put k k' a t.entries

theorem put_of_find? {k : κ} {a : α} {l : List (κ × α)} (h : find? k l = some a) :
    put k a l = l := by
  induction l with
  | nil => cases h
  | cons e rest ih =>
    obtain ⟨k₀, a₀⟩ := e
    unfold find? at h
    unfold put
    split at h
    · rename_i hk
      cases h
      simp [hk]
    · rename_i hk
      simp [hk, ih h]

/-- To insert the value that is there changes nothing. -/
theorem insert_of_get? {t : Table κ α} {k : κ} {a : α} (h : t.get? k = some a) :
    t.insert k a = t := by
  obtain ⟨entries, distinct⟩ := t
  simp only [insert, put_of_find? h]

theorem find?_eq_none_of_not_mem {k : κ} {l : List (κ × α)} (h : k ∉ l.map (·.1)) :
    find? k l = none := by
  induction l with
  | nil => rfl
  | cons p rest ih =>
    simp only [List.map_cons, List.mem_cons, not_or] at h
    simp [find?, Ne.symm h.1, ih h.2]

theorem find?_eq_some_iff {k : κ} {a : α} {l : List (κ × α)} (hl : (l.map (·.1)).Nodup) :
    find? k l = some a ↔ (k, a) ∈ l := by
  induction l with
  | nil => simp [find?]
  | cons e rest ih =>
    obtain ⟨k₀, a₀⟩ := e
    simp only [List.map_cons, List.nodup_cons] at hl
    by_cases hk : k₀ = k
    · subst hk
      have hn : (k₀, a) ∉ rest := fun hm => hl.1 (List.mem_map_of_mem hm)
      simp [find?, hn, eq_comm]
    · simp [find?, hk, Ne.symm hk, ih hl.2]

theorem get?_eq_some_iff {t : Table κ α} {k : κ} {a : α} :
    t.get? k = some a ↔ (k, a) ∈ t.entries :=
  find?_eq_some_iff t.distinct

theorem put_of_find?_eq_none {k : κ} {a : α} {l : List (κ × α)} (h : find? k l = none) :
    put k a l = l ++ [(k, a)] := by
  induction l with
  | nil => rfl
  | cons e rest ih =>
    obtain ⟨k₀, a₀⟩ := e
    unfold find? at h
    split at h
    · cases h
    · rename_i hk
      simp [put, hk, ih h]

/-- A new key comes last. -/
theorem entries_insert {t : Table κ α} {k : κ} {a : α} (h : t.get? k = none) :
    (t.insert k a).entries = t.entries ++ [(k, a)] :=
  put_of_find?_eq_none h

/-- A new value for an old key changes no list that is read off the entries and does not tell the
two values apart. -/
theorem filterMap_insert {β : Type} {t : Table κ α} {k : κ} {a a' : α} (f : κ × α → Option β)
    (h : t.get? k = some a) (hf : f (k, a') = f (k, a)) :
    (t.insert k a').entries.filterMap f = t.entries.filterMap f := by
  show (put k a' t.entries).filterMap f = _
  replace h : find? k t.entries = some a := h
  revert h
  generalize t.entries = l
  intro h
  induction l with
  | nil => cases h
  | cons e rest ih =>
    obtain ⟨k₀, a₀⟩ := e
    unfold find? at h
    unfold put
    split at h
    · rename_i hk
      subst hk
      cases h
      simp [List.filterMap_cons, hf]
    · rename_i hk
      simp [hk, List.filterMap_cons, ih h]

theorem get?_retain (t : Table κ α) (p : κ → α → Bool) (k : κ) :
    (t.retain p).get? k = (t.get? k).filter (p k) := by
  suffices H : ∀ l : List (κ × α), (l.map (·.1)).Nodup →
      find? k (l.filter fun e => p e.1 e.2) = (find? k l).filter (p k) from H _ t.distinct
  intro l hl
  induction l with
  | nil => rfl
  | cons e rest ih =>
    obtain ⟨k₀, a₀⟩ := e
    simp only [List.map_cons, List.nodup_cons] at hl
    by_cases hk : k₀ = k
    · subst hk
      have hn : find? k₀ rest = none := find?_eq_none_of_not_mem hl.1
      by_cases hp : p k₀ a₀ = true
      · simp [hp, find?, Option.filter]
      · simp [hp, find?, ih hl.2, hn, Option.filter]
    · by_cases hp : p k₀ a₀ = true
      · simp [hp, find?, hk, ih hl.2]
      · simp [hp, find?, hk, ih hl.2]

theorem get?_erase (t : Table κ α) (k k' : κ) :
    (t.erase k).get? k' = if k' = k then none else t.get? k' := by
  unfold erase
  rw [get?_retain]
  by_cases h : k' = k
  · cases t.get? k' <;> simp [Option.filter, h]
  · cases t.get? k' <;> simp [Option.filter, h]

/-- Changes the value of one key, if it has one. -/
def modify (t : Table κ α) (k : κ) (f : α → α) : Table κ α :=
  match t.get? k with
  | some a => t.insert k (f a)
  | none => t

end Table

end Turnstile
