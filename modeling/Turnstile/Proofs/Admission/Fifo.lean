import Turnstile.Proofs.Admission.Looks
import Turnstile.Proofs.Schedule

/-!
# First in, first out

Reservations at one hall on the machine that gives tasks their turns in the order in which they
became ready. A task that is dropped leaves behind tasks that release what it owed, in their order,
so that permits come back before the lock is unlocked.

`Fair` says that what the tasks have in their hands agrees with the store, where a task is ahead of
another one that has not begun if it runs or is ready before it (`Ahead`). Only tasks that release
something have not begun and have something in their hands, and they go by their places among those
that are ready: `Fair.dequeue` and `Fair.set` are where a place is lost.
-/

namespace Turnstile.Admission

open Schedule

/-- The task that releases what a task that was dropped owed. -/
def Release.code (r : Release) : Routine (Option (Except AdmissionError Reservation)) :=
  r.program.bind fun _ => .done none

/-- A hall as the host of reservations. Tasks return their reservations, or nothing if they only
release something. -/
abbrev Hall.host (E : Surroundings) : Host where
  calls := collaborators
  Pledge := Release
  Result := Option (Except AdmissionError Reservation)
  State := Hall E
  Pending _ := Hall.Pending E
  due? _ v := v.2.due?
  signal? _ v := some v.1
  perform h now t c :=
    let r := h.look now t c none
    (r.1, r.2.1.map .wake, r.2.2)
  resume h now c v :=
    let r := h.look now v.1 c (some v.2)
    (r.1, r.2.1.map .wake, r.2.2)
  cancel h now _ v :=
    let r := h.cancel now v
    (r.1, r.2.map .wake)
  settle := Release.program
  forfeit h _ r := (h, [.start none r.code []])
  next? _ := none

variable {E : Surroundings}

/-- What may happen to the machine. -/
inductive Act (E : Surroundings)
  /-- A reservation is made, by a controller of its own. -/
  | reserve (tag : Nat) (settings : Settings) (hasFlags hasPublisher : Bool) (q : Request)
  /-- Reservations are to be dropped when their turn comes. -/
  | abort (tag : Nat)
  /-- A reservation is dropped on the spot, if it does not run. -/
  | drop (id : Nat)
  /-- One node of the task that runs, or the next turn. -/
  | step
  /-- Time passes. -/
  | jump (t : Nat)
  /-- The store is swept at the present time. -/
  | sweep
  /-- The surroundings change and wake whom they like. -/
  | change (σ : E.State) (signals : List Nat)

namespace Fifo

variable {m m' : Machine (Hall.host E)} {hands hands' : Nat → Hands} {i j : Nat}
  {t : Schedule.Task (Hall.host E)} {st : TaskState (Hall.host E)} {ready : List Nat}

def start (client : Ulid) (σ : E.State) : Machine (Hall.host E) := .idle ⟨.fresh client, σ⟩

def act (m : Machine (Hall.host E)) : Act E → Machine (Hall.host E)
  | .reserve tag settings hasFlags hasPublisher q =>
    m.spawn (some tag)
      (((Policy.plain settings hasFlags hasPublisher).reserve q).bind fun r => .done (some r)) []
  | .abort tag => m.stopTag tag
  | .drop id =>
    match m.tasks[id]? with
    | some t => if t.tag.isSome then m.drop id t.state else m
    | none => m
  | .step => m.step?.getD m
  | .jump t => m.jump t
  | .sweep => { m with state := m.state.sweep m.now }
  | .change σ signals => { m with state := { m.state with others := σ } }.obeyAll (signals.map .wake)

def run (m : Machine (Hall.host E)) (acts : List (Act E)) : Machine (Hall.host E) := acts.foldl act m

/-! ## What holds between any two acts -/

/-- The ticket under which a task waits. -/
def slip? : TaskState (Hall.host E) → Option Ticket
  | .blocked _ w _ _ _ => some w.1
  | _ => none

def slip (m : Machine (Hall.host E)) (i : Nat) : Option Ticket :=
  m.tasks[i]?.bind fun t => slip? t.state

def IsFresh (st : TaskState (Hall.host E)) : Prop := ∃ p owed, st = .fresh p owed

theorem not_isFresh_running : ¬ IsFresh (.running : TaskState (Hall.host E)) := by
  rintro ⟨p, owed, he⟩
  cases he

theorem not_isFresh_blocked {c : Call} {w : Hall.Pending E} {k : c.Answer → (Hall.host E).Code}
    {owed : List Release} {since : Nat} :
    ¬ IsFresh (.blocked c w k owed since : TaskState (Hall.host E)) := by
  rintro ⟨p, owed, he⟩
  cases he

/-- The task `j` has not begun, and `i` runs or is to run before it. -/
def Ahead (m : Machine (Hall.host E)) (i j : Nat) : Prop :=
  (∃ t, m.tasks[j]? = some t ∧ IsFresh t.state) ∧
    ((∃ r, m.running = some r ∧ r.id = i) ∨ [i, j].Sublist m.ready)

/-- The task `i` is where it has `x` in its hands. -/
inductive Fits (running : Option (Running (Hall.host E))) (i : Nat) (x : Hands) (tag : Option Nat) :
    TaskState (Hall.host E) → Prop
  | fresh (p : (Hall.host E).Code) : Careful x ⟨p, []⟩ → (tag ≠ none → x = .empty) →
    Fits running i x tag (.fresh p [])
  | blocked (c : Call) (w : Hall.Pending E) (k : c.Answer → (Hall.host E).Code) (owed : List Release)
    (since : Nat) : Careful x ⟨.call c k, owed⟩ → c.Waits w.2 → c.mayWait = true →
    Fits running i x tag (.blocked c w k owed since)
  | running (r : Running (Hall.host E)) : running = some r → r.id = i →
    Careful x ⟨r.code, r.owed⟩ → Fits running i x tag .running
  | ended (r : Option (Except AdmissionError Reservation)) (time : Nat) : x = .empty →
    r ≠ some (.error .capacityExhausted) → Fits running i x tag (.ended r time)
  | dropped : x = .empty → Fits running i x tag .dropped

structure Fair (m : Machine (Hall.host E)) (hands : Nat → Hands) : Prop where
  clean : Clean hands (slip m) (Ahead m) m.state.store m.tickets
  fits : ∀ (i : Nat) t, m.tasks[i]? = some t → Fits m.running i (hands i) t.tag t.state
  refused : ∀ i, (hands i).refused = false
  beyond : ∀ i, m.tasks.length ≤ i → hands i = .empty
  stopped : ∀ (i : Nat) t, m.tasks[i]? = some t → t.stopped = true → t.tag ≠ none
  running : ∀ r, m.running = some r → ∃ t, m.tasks[r.id]? = some t ∧ t.state = .running
  front : m.front = none
  nodup : m.ready.Nodup
  bound : ∀ i ∈ m.ready, i < m.tasks.length

/-- The task `i` runs or is the first that is ready. -/
structure HasTurn (m : Machine (Hall.host E)) (i : Nat) : Prop where
  bound : i < m.tasks.length
  running : ∀ r, m.running = some r → r.id = i
  first : ∀ j, ¬ Ahead m j i

theorem getElem?_append_cases {α : Type} {l l' : List α} {b : α} (h : (l ++ l')[j]? = some b) :
    l[j]? = some b ∨ ∃ d, j = l.length + d ∧ l'[d]? = some b := by
  rw [List.getElem?_append] at h
  split at h
  · exact .inl h
  · exact .inr ⟨j - l.length, by omega, h⟩

theorem slip_congr (h : m'.tasks = m.tasks) : slip m' = slip m := by
  unfold slip
  rw [h]

theorem slip_eq (hi : m.tasks[i]? = some t) : slip m i = slip? t.state := by
  unfold slip
  rw [hi]
  rfl

theorem not_ahead (hi : m.tasks[i]? = some t) (ht : ¬ IsFresh t.state) (j : Nat) :
    ¬ Ahead m j i := by
  rintro ⟨⟨t', ht', hf⟩, -⟩
  obtain rfl := Option.some.inj (hi.symm.trans ht')
  exact ht hf

theorem slip_setTask (hi : i < m.tasks.length) :
    slip (m.setTask i st) = Function.update (slip m) i (slip? st) := by
  funext j
  by_cases hj : j = i
  · subst hj
    rw [Function.update_self]
    exact slip_eq (Machine.getElem?_setTask_self (List.getElem?_eq_getElem hi))
  · rw [Function.update_of_ne hj]
    unfold slip
    rw [Machine.getElem?_setTask_of_ne hj]

theorem slip_append {tasks : List (Schedule.Task (Hall.host E))} (h : m'.tasks = m.tasks ++ tasks)
    (hs : ∀ t ∈ tasks, slip? t.state = none) : slip m' = slip m := by
  funext j
  unfold slip
  rw [h, List.getElem?_append]
  split
  · rfl
  · rename_i hj
    rw [List.getElem?_eq_none (Nat.not_lt.1 hj)]
    cases ht : tasks[j - m.tasks.length]? with
    | none => rfl
    | some t => exact hs t (List.mem_of_getElem? ht)

theorem Fits.mono {running running' : Option (Running (Hall.host E))} {x : Hands} {tag : Option Nat}
    (h : Fits running i x tag st)
    (hr : ∀ r, running = some r → r.id = i → running' = some r) : Fits running' i x tag st := by
  cases h with
  | fresh p hp hx => exact .fresh p hp hx
  | blocked c w k owed since hcode hw hc => exact .blocked c w k owed since hcode hw hc
  | running r hrun hid hcode => exact .running r (hr r hrun hid) hid hcode
  | ended r time hx hne => exact .ended r time hx hne
  | dropped hx => exact .dropped hx

namespace Fair

theorem start (client : Ulid) (σ : E.State) : Fair (Fifo.start client σ) fun _ => .empty := by
  have hnone : ∀ i, (Fifo.start client σ).tasks[i]? = none := fun _ => List.getElem?_nil
  have hslip : slip (Fifo.start client σ) = fun _ => none := rfl
  have hpermits : Stocked (fun _ => Hands.empty.lock?) (fun _ => Hands.empty.permits?)
      (Ahead (Fifo.start client σ)) (.fresh client) :=
    (Stocked.start client).reorder fun _ _ _ _ hp _ _ _ => nomatch hp
  exact {
    clean := ⟨hslip ▸ .start client, hpermits⟩
    fits := fun i t hi => nomatch (hnone i).symm.trans hi
    refused := fun _ => rfl
    beyond := fun _ _ => rfl
    stopped := fun i t hi => nomatch (hnone i).symm.trans hi
    running := fun r hr => nomatch hr
    front := rfl
    nodup := List.nodup_nil
    bound := fun i hi => nomatch hi }

/-- More tasks are ready. -/
theorem readies (h : Fair m hands) (hr : m.Readies m') : Fair m' hands := by
  obtain ⟨l, rfl, hn, hl⟩ := hr
  refine ⟨⟨h.clean.locks, ?_⟩, h.fits, h.refused, h.beyond, h.stopped, h.running, h.front,
    hn h.nodup, ?_⟩
  · refine h.clean.permits.reorder fun a b k o _ _ _ hab => ⟨hab.1, hab.2.imp_right fun hs => ?_⟩
    exact hs.trans (List.sublist_append_left ..)
  · intro i hi
    rcases List.mem_append.1 hi with hi | hi
    · exact h.bound i hi
    · exact hl i hi

/-- The hall is another one. -/
theorem state (h : Fair m hands) {σ : Hall E}
    (hc : Clean hands (slip m) (Ahead m) σ.store m.tickets) : Fair { m with state := σ } hands :=
  ⟨hc, h.fits, h.refused, h.beyond, h.stopped, h.running, h.front, h.nodup, h.bound⟩

/-- The first ready task loses its place. Whoever is behind it does not need it: its permits are
not without the lock. -/
theorem dequeue (h : Fair m hands) (hr : m.running = none) (hready : m.ready = i :: ready)
    (hx : (hands i).Whole) : Fair { m with ready } hands := by
  have hnodup := h.nodup
  rw [hready] at hnodup
  refine ⟨⟨h.clean.locks, h.clean.permits.reorder fun a b k o hp hl _ hab => ⟨hab.1, ?_⟩⟩, h.fits,
    h.refused, h.beyond, h.stopped, h.running, h.front, (List.nodup_cons.1 hnodup).2, ?_⟩
  · rcases hab.2 with ⟨r, hrun, -⟩ | hs
    · cases hr.symm.trans hrun
    · rw [hready] at hs
      rcases List.sublist_cons_iff.1 hs with hs | ⟨l, hl', -⟩
      · exact .inr hs
      · obtain rfl := (List.cons.inj hl').1
        obtain ⟨o, ho⟩ := hx k hp
        exact absurd ho (hl o)
  · intro j hj
    exact h.bound j (hready ▸ List.mem_cons_of_mem _ hj)

theorem spawn (h : Fair m hands) (tag : Option Nat) {p : (Hall.host E).Code}
    (hp : Careful .empty ⟨p, []⟩) : Fair (m.spawn tag p []) hands := by
  have hslip : slip (m.spawn tag p []) = slip m := slip_append rfl (by simp [slip?])
  refine ⟨⟨hslip ▸ h.clean.locks, ?permits⟩, ?fits, h.refused, ?beyond, ?stopped, ?running,
    h.front, ?nodup, ?bound⟩
  case permits =>
    refine h.clean.permits.reorder fun a b k o _ _ _ hab => ?_
    obtain ⟨⟨t, ht, hf⟩, hab⟩ := hab
    refine ⟨⟨t, Machine.getElem?_spawn ht, hf⟩, hab.imp_right fun hs => ?_⟩
    exact hs.trans (List.sublist_append_left ..)
  case fits =>
    intro i t hi
    rcases Machine.getElem?_spawn_cases hi with hi | ⟨rfl, rfl⟩
    · exact h.fits i t hi
    · rw [h.beyond _ (Nat.le_refl _)]
      exact .fresh p hp fun _ => rfl
  case beyond =>
    intro i hi
    rw [Machine.length_spawn] at hi
    exact h.beyond i (Nat.le_of_succ_le hi)
  case stopped =>
    intro i t hi hs
    rcases Machine.getElem?_spawn_cases hi with hi | ⟨-, rfl⟩
    · exact h.stopped i t hi hs
    · cases hs
  case running =>
    intro r hr
    obtain ⟨t, ht, hst⟩ := h.running r hr
    exact ⟨t, Machine.getElem?_spawn ht, hst⟩
  case nodup =>
    refine List.nodup_append.2 ⟨h.nodup, List.nodup_singleton _, fun a ha b hb => ?_⟩
    have hlt := h.bound a ha
    rw [List.mem_singleton.1 hb]
    omega
  case bound =>
    intro i hi
    rw [Machine.length_spawn]
    rcases List.mem_append.1 hi with hi | hi
    · have hlt := h.bound i hi
      omega
    · rw [List.mem_singleton.1 hi]
      omega

theorem hasTurn_of_running (h : Fair m hands) {r : Running (Hall.host E)}
    (hr : m.running = some r) : HasTurn m r.id := by
  obtain ⟨t, ht, hst⟩ := h.running r hr
  refine ⟨(List.getElem?_eq_some_iff.1 ht).1, fun r' hr' => ?_, not_ahead ht ?_⟩
  · rw [Option.some.inj (hr.symm.trans hr')]
  · rw [hst]
    exact not_isFresh_running

theorem hasTurn_of_ready (h : Fair m hands) (hr : m.running = none) (hready : m.ready = i :: ready) :
    HasTurn m i := by
  have hnodup := h.nodup
  rw [hready] at hnodup
  have hi : i ∉ ready := (List.nodup_cons.1 hnodup).1
  refine ⟨h.bound i (hready ▸ List.mem_cons_self ..), fun r hr' => ?_, ?_⟩
  · cases hr.symm.trans hr'
  · rintro j ⟨-, ⟨r, hr', -⟩ | hs⟩
    · cases hr.symm.trans hr'
    · rw [hready] at hs
      rcases List.sublist_cons_iff.1 hs with hs | ⟨l, hl, hs⟩
      · exact hi (hs.subset (by simp))
      · obtain rfl := (List.cons.inj hl).2
        exact hi (hs.subset (by simp))

/-- The task whose turn it is gets into another state. -/
theorem set (h : Fair m hands) {x : Hands} (hturn : HasTurn m i)
    (htasks : m'.tasks = (m.setTask i st).tasks) (hfront : m'.front = m.front)
    (hready : m.ready = m'.ready ∨ m.ready = i :: m'.ready)
    (hrun' : ∀ r, m'.running = some r → r.id = i ∧ st = .running)
    (hkeep : (∃ r, m'.running = some r ∧ r.id = i) ∨ x.Whole) (hx : x.refused = false)
    (hfit : ∀ tag, Fits m'.running i x tag st)
    (hc : Clean (Function.update hands i x) (Function.update (slip m) i (slip? st)) (Ahead m)
      m'.state.store m'.tickets) : Fair m' (Function.update hands i x) := by
  have hnew : ∀ (j : Nat) t, m'.tasks[j]? = some t → (j = i ∧ t.state = st ∧
      ∃ t', m.tasks[i]? = some t' ∧ t.tag = t'.tag ∧ t.stopped = t'.stopped) ∨
      j ≠ i ∧ m.tasks[j]? = some t := by
    intro j t hj
    rw [htasks] at hj
    exact Machine.getElem?_setTask_cases hj
  have hold : ∀ (j : Nat) t, j ≠ i → m.tasks[j]? = some t → m'.tasks[j]? = some t := by
    intro j t hji hj
    rw [htasks, Machine.getElem?_setTask_of_ne hji]
    exact hj
  have hlen : m'.tasks.length = m.tasks.length := by
    rw [htasks]
    exact Machine.length_setTask
  have hsub : ∀ j, j ∈ m'.ready → j ∈ m.ready := by
    intro j hj
    rcases hready with he | he <;> rw [he]
    · exact hj
    · exact List.mem_cons_of_mem _ hj
  have hslip : slip m' = Function.update (slip m) i (slip? st) :=
    (slip_congr htasks).trans (slip_setTask hturn.bound)
  refine ⟨?clean, ?fits, ?refused, ?beyond, ?stopped, ?running, ?front, ?nodup, ?bound⟩
  case clean =>
    refine ⟨hslip ▸ hc.locks, hc.permits.reorder fun a b k o hp hl _ hab => ?_⟩
    have hbi : b ≠ i := by
      rintro rfl
      exact hturn.first a hab
    -- Only the place of the task itself is lost, if it does not run any more.
    have hself : a = i → ∃ r, m'.running = some r ∧ r.id = a := by
      rintro rfl
      refine hkeep.resolve_right fun hw => ?_
      simp only [Function.update_self] at hp hl
      obtain ⟨o', ho'⟩ := hw k hp
      exact hl o' ho'
    obtain ⟨⟨t, ht, hf⟩, hab⟩ := hab
    refine ⟨⟨t, hold b t hbi ht, hf⟩, ?_⟩
    rcases hab with ⟨r, hr, hid⟩ | hs
    · exact .inl (hself (hid ▸ hturn.running r hr))
    · rcases hready with he | he
      · exact .inr (he ▸ hs)
      · rw [he] at hs
        rcases List.sublist_cons_iff.1 hs with hs | ⟨l, hl', -⟩
        · exact .inr hs
        · exact .inl (hself (List.cons.inj hl').1)
  case fits =>
    intro j t hj
    rcases hnew j t hj with ⟨rfl, hst, -⟩ | ⟨hji, hj⟩
    · rw [Function.update_self, hst]
      exact hfit t.tag
    · rw [Function.update_of_ne hji]
      refine (h.fits j t hj).mono fun r hr hid => ?_
      exact absurd (hid.symm.trans (hturn.running r hr)) hji
  case refused =>
    intro j
    by_cases hji : j = i
    · subst hji
      rwa [Function.update_self]
    · rw [Function.update_of_ne hji]
      exact h.refused j
  case beyond =>
    intro j hj
    have hlt := hturn.bound
    rw [Function.update_of_ne (by omega)]
    exact h.beyond j (by omega)
  case stopped =>
    intro j t hj hs
    rcases hnew j t hj with ⟨rfl, -, t', ht', htag, hstop⟩ | ⟨-, hj⟩
    · rw [htag]
      exact h.stopped j t' ht' (hstop ▸ hs)
    · exact h.stopped j t hj hs
  case running =>
    intro r hr
    obtain ⟨rfl, hst⟩ := hrun' r hr
    obtain ⟨t, ht⟩ : ∃ t, m'.tasks[r.id]? = some t := ⟨_, List.getElem?_eq_getElem (hlen ▸ hturn.bound)⟩
    rcases hnew r.id t ht with ⟨-, hs, -⟩ | ⟨hne, -⟩
    · exact ⟨t, ht, hs.trans hst⟩
    · exact absurd rfl hne
  case front => exact hfront.trans h.front
  case nodup =>
    have hnodup := h.nodup
    rcases hready with he | he <;> rw [he] at hnodup
    · exact hnodup
    · exact (List.nodup_cons.1 hnodup).2
  case bound =>
    intro j hj
    rw [hlen]
    exact h.bound j (hsub j hj)

end Fair

end Fifo

end Turnstile.Admission
