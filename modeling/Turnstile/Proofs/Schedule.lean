import Mathlib.Data.List.Nodup
import Turnstile.Schedule.Machine

/-!
# Tasks that change and become ready

One task gets into another state, is marked or is added, and all others are left alone
(`getElem?_setTask_cases`, `getElem?_mark_cases`, `getElem?_spawn_cases`). Whatever wakes tasks
puts some at the end of those that are ready, each of them once, and does nothing else (`Readies`).
Without a front, the first ready task is the next to have its turn.
-/

namespace Turnstile.Schedule.Machine

variable {H : Host} {m m' m'' : Machine H} {id : Nat} {ids : List Nat} {p : Task H → Bool}

section

variable {j : Nat} {t : Task H} {s : TaskState H}

@[simp] theorem length_setTask : (m.setTask id s).tasks.length = m.tasks.length :=
  List.length_modify ..

theorem getElem?_setTask_self (h : m.tasks[id]? = some t) :
    (m.setTask id s).tasks[id]? = some { t with state := s } := by
  show (m.tasks.modify id _)[id]? = _
  rw [List.getElem?_modify, h]
  simp

theorem getElem?_setTask_of_ne (h : j ≠ id) : (m.setTask id s).tasks[j]? = m.tasks[j]? := by
  show (m.tasks.modify id _)[j]? = _
  rw [List.getElem?_modify]
  cases m.tasks[j]? <;> simp [Ne.symm h]

theorem getElem?_setTask_cases (h : (m.setTask id s).tasks[j]? = some t) :
    (j = id ∧ t.state = s ∧
      ∃ t', m.tasks[id]? = some t' ∧ t.tag = t'.tag ∧ t.stopped = t'.stopped) ∨
    j ≠ id ∧ m.tasks[j]? = some t := by
  by_cases hj : j = id
  · subst hj
    cases ht : m.tasks[j]? with
    | none =>
      have hlen := List.getElem?_eq_none_iff.1 ht
      rw [List.getElem?_eq_none (by simpa using hlen)] at h
      cases h
    | some t' =>
      rw [getElem?_setTask_self ht] at h
      cases h
      exact .inl ⟨rfl, rfl, t', rfl, rfl, rfl⟩
  · rw [getElem?_setTask_of_ne hj] at h
    exact .inr ⟨hj, h⟩

/-- Nothing changes if the task was in that state before. -/
theorem setTask_eq (h : m.tasks[id]? = some t) (hs : t.state = s) :
    (m.setTask id s).tasks = m.tasks := by
  refine List.ext_getElem? fun j => ?_
  by_cases hj : j = id
  · subst hj
    rw [getElem?_setTask_self h, h, ← hs]
  · exact getElem?_setTask_of_ne hj

end

/-- `m'` is `m` with more tasks ready. -/
def Readies (m m' : Machine H) : Prop :=
  ∃ l, m' = { m with ready := m.ready ++ l } ∧ (m.ready.Nodup → (m.ready ++ l).Nodup) ∧
    ∀ id ∈ l, id < m.tasks.length

theorem Readies.refl : Readies m m :=
  ⟨[], by rw [List.append_nil], by rw [List.append_nil]; exact id, by simp⟩

theorem Readies.trans (h : Readies m m') (h' : Readies m' m'') : Readies m m'' := by
  obtain ⟨l, rfl, hn, hl⟩ := h
  obtain ⟨l', rfl, hn', hl'⟩ := h'
  refine ⟨l ++ l', ?_, fun hm => ?_, fun id hid => ?_⟩
  · simp only [List.append_assoc]
  · rw [← List.append_assoc]
    exact hn' (hn hm)
  · rcases List.mem_append.1 hid with hid | hid
    · exact hl id hid
    · exact hl' id hid

theorem enqueue_readies (h : id < m.tasks.length) : Readies m (m.enqueue id) := by
  unfold enqueue
  split
  · exact .refl
  · rename_i hid
    refine ⟨[id], rfl, fun hm => ?_, by simpa using h⟩
    refine List.nodup_append.2 ⟨hm, List.nodup_singleton id, fun a ha b hb => ?_⟩
    rw [List.mem_singleton.1 hb]
    rintro rfl
    exact hid ha

theorem foldl_enqueue_readies (h : ∀ id ∈ ids, id < m.tasks.length) :
    Readies m (ids.foldl enqueue m) := by
  induction ids generalizing m with
  | nil => exact .refl
  | cons id ids ih =>
    have hid := enqueue_readies (h id (List.mem_cons_self ..))
    refine hid.trans (ih fun id' hid' => ?_)
    obtain ⟨l, he, -⟩ := hid
    rw [he]
    exact h id' (List.mem_cons_of_mem _ hid')

theorem mem_numbers : id ∈ m.numbers p ↔ ∃ t, m.tasks[id]? = some t ∧ p t = true := by
  unfold numbers
  rw [List.mem_filter, List.mem_range]
  constructor
  · rintro ⟨hlt, hp⟩
    rw [List.getElem?_eq_getElem hlt] at hp
    exact ⟨_, List.getElem?_eq_getElem hlt, hp⟩
  · rintro ⟨t, ht, hp⟩
    exact ⟨(List.getElem?_eq_some_iff.1 ht).1, by simp [ht, hp]⟩

theorem numbers_lt (h : id ∈ m.numbers p) : id < m.tasks.length := by
  obtain ⟨t, ht, -⟩ := mem_numbers.1 h
  exact (List.getElem?_eq_some_iff.1 ht).1

theorem wake_readies (signal : Nat) : Readies m (m.wake signal) :=
  foldl_enqueue_readies fun _ hid => numbers_lt hid

theorem obeyAll_wake_readies (signals : List Nat) :
    Readies m (m.obeyAll (signals.map .wake)) := by
  induction signals generalizing m with
  | nil => exact .refl
  | cons signal signals ih => exact (wake_readies signal).trans ih

theorem proceed_readies (h : Readies m m') {c : H.calls.Call} {k : H.calls.Answer c → H.Code}
    {owed : List H.Pledge} (look : Look (H.calls.Answer c) (H.Pending c)) :
    Readies (m.proceed id c k owed look) (m'.proceed id c k owed look) := by
  obtain ⟨l, rfl, hn, hl⟩ := h
  cases look with
  | answered a => exact ⟨l, rfl, hn, hl⟩
  | blocked w =>
    refine ⟨l, rfl, hn, fun id' hid' => ?_⟩
    have hlt := hl id' hid'
    rwa [← length_setTask] at hlt

theorem next?_of_front (h : m.front = none) : m.next? = m.ready.head? := by
  unfold next?
  rw [h]
  cases m.ready with
  | nil => rfl
  | cons id ready => simp

@[simp] theorem enqueue_tasks : (m.enqueue id).tasks = m.tasks := by
  unfold enqueue
  split <;> rfl

@[simp] theorem enqueue_state : (m.enqueue id).state = m.state := by
  unfold enqueue
  split <;> rfl

@[simp] theorem stop_state : (m.stop id).state = m.state := by
  unfold stop
  split
  · split
    · rfl
    · exact enqueue_state
  · rfl

section

variable {j : Nat} {t : Task H}

/-- The task `id` is to be dropped when its turn comes. -/
def mark (m : Machine H) (id : Nat) : Machine H :=
  { m with tasks := m.tasks.modify id fun t => { t with stopped := true } }

theorem length_mark : (m.mark id).tasks.length = m.tasks.length :=
  List.length_modify ..

theorem getElem?_mark_cases (h : (m.mark id).tasks[j]? = some t) :
    ∃ t', m.tasks[j]? = some t' ∧ t.state = t'.state ∧ t.tag = t'.tag ∧
      (j = id ∨ t.stopped = t'.stopped) := by
  unfold mark at h
  rw [List.getElem?_modify] at h
  obtain ⟨t', ht', rfl⟩ := Option.map_eq_some_iff.1 h
  refine ⟨t', ht', ?_⟩
  split
  · rename_i hid
    exact ⟨rfl, rfl, .inl hid.symm⟩
  · exact ⟨rfl, rfl, .inr rfl⟩

theorem getElem?_mark (h : m.tasks[j]? = some t) :
    ∃ t', (m.mark id).tasks[j]? = some t' ∧ t'.state = t.state := by
  unfold mark
  rw [List.getElem?_modify, h]
  refine ⟨_, rfl, ?_⟩
  split <;> rfl

theorem tag_of_stop (h : (m.stop id).tasks[j]? = some t) :
    ∃ t', m.tasks[j]? = some t' ∧ t.tag = t'.tag := by
  unfold stop at h
  split at h
  · split at h
    · exact ⟨t, h, rfl⟩
    · rw [enqueue_tasks] at h
      obtain ⟨t', ht', -, htag, -⟩ := getElem?_mark_cases h
      exact ⟨t', ht', htag⟩
  · exact ⟨t, h, rfl⟩

end

section

variable {j : Nat} {t : Task H} {tag : Option Nat} {p : H.Code} {owed : List H.Pledge}

theorem length_spawn : (m.spawn tag p owed).tasks.length = m.tasks.length + 1 :=
  List.length_append

theorem getElem?_spawn (h : m.tasks[j]? = some t) : (m.spawn tag p owed).tasks[j]? = some t :=
  (List.getElem?_append_left (List.getElem?_eq_some_iff.1 h).1).trans h

theorem getElem?_spawn_cases (h : (m.spawn tag p owed).tasks[j]? = some t) :
    m.tasks[j]? = some t ∨ j = m.tasks.length ∧ t = ⟨.fresh p owed, tag, false⟩ := by
  unfold spawn at h
  rw [List.getElem?_append] at h
  split at h
  · exact .inl h
  · rw [List.getElem?_singleton] at h
    split at h
    · exact .inr ⟨by omega, (Option.some.inj h).symm⟩
    · cases h

end

theorem mem_due (h : id ∈ m.due) : id < m.tasks.length :=
  numbers_lt (List.mem_mergeSort.1 h)

/-- Time passes, and the tasks whose timers fire are ready. -/
theorem jump_readies (h : m.front = none) (t : Nat) :
    Readies { m with now := max m.now t } (m.jump t) := by
  have hnone : (({ m with now := max m.now t } : Machine H).due.find? fun id =>
      ({ m with now := max m.now t } : Machine H).front = some id) = none := by
    rw [List.find?_eq_none, show ({ m with now := max m.now t } : Machine H).front = none from h]
    simp
  unfold jump
  dsimp only at hnone ⊢
  rw [hnone]
  exact foldl_enqueue_readies fun id hid => mem_due (List.mem_filter.1 hid).1

end Turnstile.Schedule.Machine
