import Turnstile.Proofs.Admission.Desk

/-!
# A crowd seen from the desk

Of a reservation the desk sees only its phase, its call and what it waits for: its `Seat`. A `Room`
has a seat for each thread, and in `order` the seats that were granted the lock, each with whether
its permits may be waited for that long.

`Reach.mirrored` says that every run of a crowd at a desk is a run of a room. What a room can do is
one call of one phase at a time, so that its invariants go by `Phase.Moves`.
-/

namespace Turnstile.Admission

/-- The wait for permits is one that a pool accepts. -/
def Policy.isPatient (p : Policy) : Bool := p.settings.permitWait ≤ Limits.maxWait

/-- The threads that were granted the lock, in this order. -/
def grantees (log : List (Nat × Asked collaborators)) : List Nat :=
  (log.filter fun e => e.2.call.locks e.2.answer).map (·.1)

structure Seat where
  policy : Policy
  request : Request
  phase : Phase
  /-- The call that waits at the desk, and its slip. -/
  waits : Option (Call × Ticket × Local.Waiting)

structure Room where
  desk : Desk
  seats : List Seat
  order : List (Nat × Bool)

namespace Room

variable {spare : Bool} {key : SlotKey}

inductive Step (spare : Bool) (key : SlotKey) : Room → Room → Prop
  | aside (r : Room) (d : Desk) : r.desk.Aside spare key d → Step spare key r { r with desk := d }
  | arrive (r : Room) (p : Policy) (q : Request) : q.slot.key = key →
    Step spare key r { r with seats := r.seats ++ [⟨p, q, .start p, none⟩] }
  | answer (r : Room) (i : Nat) (s : Seat) (c : Call) (a : c.Answer) (d : Desk) :
    r.seats[i]? = some s → s.phase.Asks s.policy s.request c → (∀ x ∈ s.waits, x.1 = c) →
    r.desk.Serves spare key (s.waits.map (·.2)) d c (.answered a) →
    Step spare key r
      { desk := d
        seats := r.seats.set i
          { s with phase := s.phase.next s.policy s.request c a, waits := none }
        order := r.order ++ if c.locks a then [(i, s.policy.isPatient)] else [] }
  | block (r : Room) (i : Nat) (s : Seat) (c : Call) (x : Ticket × Local.Waiting) (d : Desk) :
    r.seats[i]? = some s → s.phase.Asks s.policy s.request c → (∀ x ∈ s.waits, x.1 = c) →
    r.desk.Serves spare key (s.waits.map (·.2)) d c (.blocked (some x)) →
    Step spare key r { r with desk := d, seats := r.seats.set i { s with waits := some (c, x) } }

inductive Reach (spare : Bool) (key : SlotKey) (d : Desk) : Room → Prop
  | start : Reach spare key d ⟨d, [], []⟩
  | step {r r' : Room} : Reach spare key d r → Step spare key r r' → Reach spare key d r'

end Room

section

variable {spare : Bool} {key : SlotKey} {d d' : Desk} {v : Slip} {c : Call} {h : History}
  {r : Room} {s : Seat} {i : Nat}

/-- Only calls that are awaited are made to wait, and with a slip. -/
theorem Desk.Serves.blocked {u : Slip} (hs : d.Serves spare key v d' c (.blocked u)) :
    c.isAwaited = true ∧ u.isSome = true := by
  have hatt (a : Local.Attempt) {α : Type} {f : Local.Outcome → α}
      (he : .blocked u = (d.attempt a v).2.map f) : u.isSome = true := by
    have hrem (t : Ticket) (p : Local.Progress) (he : .blocked u = (remember t p).map f) :
        u.isSome = true := by
      cases p with
      | done o => cases he
      | waiting w => cases he; rfl
    rcases v with _ | ⟨t, w⟩
    · exact hrem _ _ he
    · exact hrem _ _ he
  unfold Serves at hs
  split at hs
  · split at hs
    · obtain ⟨-, text, hl⟩ := hs
      cases hl
    · exact ⟨rfl, hatt _ hs.2⟩
  · exact ⟨rfl, hatt _ hs.2⟩
  · exact ⟨rfl, hatt _ hs.2⟩
  · cases hs.2
  · cases hs.2
  · cases hs.2
  · cases hs.2
  · cases hs.2
  · cases hs.2
  · obtain ⟨-, a, hl⟩ := hs
    cases hl

/-- A call that nobody waits for leaves the desk to others. -/
theorem Desk.Serves.aside {look : Look c.Answer Slip} (hs : d.Serves spare key v d' c look)
    (hc : c.isAwaited = false) : d.Aside spare key d' := by
  cases c with
  | wallClock => exact hs.1
  | newOwner => exact hs.1
  | publish => exact hs.1
  | note => exact hs.1
  | _ => cases hc

/-- The seat of a thread that has made the calls `h`. -/
structure Sits (h : History) (th : Thread (.shared spare key)) (s : Seat) : Prop where
  task : th.task = .reserve s.policy s.request
  phase : s.phase = .along s.policy s.request h
  waits : match th.pending with
    | none => s.waits = none
    | some v => ∃ c, th.strand.call? = some c ∧ c.isAwaited = true ∧ s.waits = v.map (c, ·)
  dropped : th.dropped = false

/-- The room is what the desk sees of the crowd. -/
structure Mirrors (w : Crowd (.shared spare key)) (r : Room) : Prop where
  desk : r.desk = w.state
  length : r.seats.length = w.threads.length
  seats : ∀ i th, w.threads[i]? = some th → ∃ s, r.seats[i]? = some s ∧ Sits (own i w.log) th s
  order : r.order.map (·.1) = grantees w.log

variable {w w' : Crowd (.shared spare key)} {th : Thread (.shared spare key)}

theorem Sits.slip (h : Sits h th s) : s.waits.map (·.2) = th.pending.join := by
  have hw := h.waits
  cases hp : th.pending with
  | none =>
    rw [hp] at hw
    dsimp only at hw
    rw [hw]
    rfl
  | some v =>
    rw [hp] at hw
    obtain ⟨c, -, -, hw⟩ := hw
    rw [hw]
    cases v <;> rfl

/-- What waits is the call that the thread is at. -/
theorem Sits.call (h : Sits h th s) (hc : th.strand.call? = some c) :
    ∀ x ∈ s.waits, x.1 = c := by
  intro x hx
  have hw := h.waits
  split at hw
  · rw [hw] at hx
    cases hx
  · obtain ⟨c', hc', -, hw⟩ := hw
    rw [hw] at hx
    obtain ⟨y, -, rfl⟩ := Option.map_eq_some_iff.1 hx
    exact Option.some.inj (hc'.symm.trans hc)

theorem Sits.idle (h : Sits h th s) (hc : ∀ c, th.strand.call? = some c → c.isAwaited = false) :
    th.pending = none ∧ s.waits = none := by
  have hw := h.waits
  split at hw
  · rename_i hp
    exact ⟨hp, hw⟩
  · obtain ⟨c, hc', ha, -⟩ := hw
    rw [hc c hc'] at ha
    cases ha

theorem along_snoc (p : Policy) (q : Request) (h : History) (e : Asked collaborators) :
    Phase.along p q (h ++ [e]) = (Phase.along p q h).advance p q e := by
  unfold Phase.along
  rw [List.foldl_append]
  rfl

theorem grantees_snoc {log : List (Nat × Asked collaborators)} {a : c.Answer} :
    grantees (log ++ [(i, ⟨c, a⟩)]) = grantees log ++ if c.locks a then [i] else [] := by
  unfold grantees
  rw [List.filter_append, List.map_append]
  congr 1
  cases hc : c.locks a <;> simp [hc]

/-- A thread at a call that is awaited is in a phase in which this call is due. -/
theorem Sits.asks (hl : w.Led) (hi : w.threads[i]? = some th) (hs : Sits (own i w.log) th s)
    (hc : th.strand.call? = some c) (ha : c.isAwaited = true) :
    s.phase.Asks s.policy s.request c := by
  have hlead := hl.leads i th hi
  obtain ⟨task, strand, pending, dropped⟩ := th
  obtain ⟨p, q, φ, waits⟩ := s
  obtain rfl : task = .reserve p q := hs.task
  rw [hs.phase]
  exact ((reserve_along hlead).2.1 c hc ha).1

namespace Mirrors

theorem set (hm : Mirrors w r) (hi : r.seats[i]? = some s) {th' : Thread (.shared spare key)}
    {s' : Seat} {d : Desk} {log : List (Nat × Asked collaborators)} {order : List (Nat × Bool)}
    (hs : Sits (own i log) th' s') (hlog : ∀ j, j ≠ i → own j log = own j w.log)
    (ho : order.map (·.1) = grantees log) :
    Mirrors ⟨d, w.threads.set i th', log⟩ ⟨d, r.seats.set i s', order⟩ where
  desk := rfl
  length := by rw [List.length_set, List.length_set, hm.length]
  order := ho
  seats j th hj := by
    have hlt := (List.getElem?_eq_some_iff.1 hi).1
    rcases getElem?_set_cases hj with ⟨rfl, rfl⟩ | ⟨hne, hj⟩
    · exact ⟨s', List.getElem?_set_self hlt, hs⟩
    · obtain ⟨s₁, h₁, h₂⟩ := hm.seats j th hj
      refine ⟨s₁, ?_, ?_⟩
      · rw [List.getElem?_set_ne (Ne.symm hne), h₁]
      · rw [hlog j hne]
        exact h₂

theorem keep (hm : Mirrors w r) (hi : r.seats[i]? = some s) {th' : Thread (.shared spare key)}
    {d : Desk} {log : List (Nat × Asked collaborators)} (hs : Sits (own i log) th' s)
    (hlog : ∀ j, j ≠ i → own j log = own j w.log) (ho : grantees log = grantees w.log) :
    Mirrors ⟨d, w.threads.set i th', log⟩ { r with desk := d } := by
  have := hm.set (d := d) hi hs hlog (hm.order.trans ho.symm)
  obtain ⟨hlt, hget⟩ := List.getElem?_eq_some_iff.1 hi
  rwa [← hget, List.set_getElem_self hlt] at this

theorem state (hm : Mirrors w r) (d : Desk) :
    Mirrors { w with state := d } { r with desk := d } :=
  ⟨rfl, hm.length, hm.seats, hm.order⟩

theorem arrive (hl : w.Led) (hm : Mirrors w r) (p : Policy) (q : Request) :
    Mirrors { w with threads := w.threads ++ [.start (.reserve p q)] }
      { r with seats := r.seats ++ [⟨p, q, .start p, none⟩] } where
  desk := hm.desk
  length := by simp [hm.length]
  order := hm.order
  seats i th hi := by
    rcases Nat.lt_trichotomy i w.threads.length with hlt | rfl | hgt
    · rw [List.getElem?_append_left hlt] at hi
      obtain ⟨s, h₁, h₂⟩ := hm.seats i th hi
      exact ⟨s, by rw [List.getElem?_append_left (hm.length ▸ hlt), h₁], h₂⟩
    · rw [List.getElem?_concat_length] at hi
      obtain rfl := Option.some.inj hi
      have hown : own w.threads.length w.log = [] := by
        refine List.eq_nil_iff_forall_not_mem.2 fun e he => ?_
        exact absurd (hl.bound _ (mem_own.1 he)) (Nat.lt_irrefl _)
      refine ⟨⟨p, q, .start p, none⟩, ?_, ⟨rfl, ?_, rfl, rfl⟩⟩
      · rw [← hm.length, List.getElem?_concat_length]
      · rw [hown]
        rfl
    · rw [List.getElem?_eq_none (by simp; omega)] at hi
      cases hi

/-- Every step of the crowd is one of the room, or the desk does not see it. -/
theorem step (hl : w.Led) (hm : Mirrors w r) (hs : w.Step w') :
    ∃ r', Mirrors w' r' ∧ (r' = r ∨ Room.Step spare key r r') := by
  cases hs with
  | arrive p q hq => exact ⟨_, hm.arrive hl p q, .inr (.arrive r p q hq)⟩
  | silent i th t hi _ ht =>
    obtain ⟨s, h₁, h₂⟩ := hm.seats i th hi
    obtain ⟨hp, hw⟩ := h₂.idle fun c hc => by rw [call?_of_step ht] at hc; cases hc
    refine ⟨_, hm.keep h₁ ⟨h₂.task, h₂.phase, ?_, h₂.dropped⟩ (fun _ _ => rfl) rfl, .inl ?_⟩
    · dsimp only
      rw [hp]
      exact hw
    · rw [← hm.desk]
  | answer i th c a t d hi _ ht hlook =>
    obtain ⟨s, h₁, h₂⟩ := hm.seats i th hi
    have hc : th.strand.call? = some c := call?_of_step_call ht
    have hlog : ∀ j, j ≠ i → own j (w.log ++ [(i, ⟨c, a⟩)]) = own j w.log :=
      fun j hj => own_snoc_of_ne (Ne.symm hj)
    obtain hserve | ⟨-, -, -, hlook⟩ := hlook
    · cases ha : c.isAwaited with
      | true =>
        have hstep : Room.Step spare key r _ :=
          .answer r i s c a d h₁ (h₂.asks hl hi hc ha) (h₂.call hc)
            (by rw [h₂.slip, hm.desk]; exact hserve)
        refine ⟨_, ?_, .inr hstep⟩
        refine hm.set h₁ ⟨h₂.task, ?_, rfl, h₂.dropped⟩ hlog ?_
        · rw [own_snoc_self, along_snoc, ← h₂.phase]
          exact (if_pos ha).symm
        · rw [grantees_snoc, List.map_append, hm.order]
          cases c.locks a <;> rfl
      | false =>
        have hp := (h₂.idle fun c' hc' => by rw [hc] at hc'; cases hc'; exact ha).2
        refine ⟨_, hm.keep h₁ ⟨h₂.task, ?_, hp, h₂.dropped⟩ hlog ?_, .inr (.aside r d ?_)⟩
        · rw [own_snoc_self, along_snoc, ← h₂.phase]
          exact (if_neg (by simp [ha])).symm
        · rw [grantees_snoc]
          have : c.locks a = false := by cases c <;> first | rfl | cases ha
          rw [this]
          exact List.append_nil _
        · rw [hm.desk]
          exact hserve.aside ha
    · cases hlook
  | block i th c v d hi _ hc hlook =>
    obtain ⟨s, h₁, h₂⟩ := hm.seats i th hi
    rcases hlook with hserve | ⟨ha, hv, rfl, hlook⟩
    · obtain ⟨ha, hv⟩ := hserve.blocked
      obtain ⟨x, rfl⟩ := Option.isSome_iff_exists.1 hv
      have hstep : Room.Step spare key r _ :=
        .block r i s c x d h₁ (h₂.asks hl hi hc ha) (h₂.call hc)
          (by rw [h₂.slip, hm.desk]; exact hserve)
      refine ⟨_, ?_, .inr hstep⟩
      exact hm.set h₁ ⟨h₂.task, h₂.phase, ⟨c, hc, ha, rfl⟩, h₂.dropped⟩ (fun _ _ => rfl) hm.order
    · -- The call was put off, and the room does not see it.
      cases hlook
      have hw : s.waits = none := by
        have := h₂.slip
        rw [hv] at this
        exact Option.map_eq_none_iff.1 this
      refine ⟨_, hm.keep h₁ ⟨h₂.task, h₂.phase, ⟨c, hc, ha, hw⟩, h₂.dropped⟩ (fun _ _ => rfl) rfl, .inl ?_⟩
      rw [← hm.desk]
  | drop i th c d _ _ _ _ hd => exact hd.elim
  | stir d hd => exact ⟨_, hm.state d, .inr (.aside r d (hm.desk ▸ hd))⟩

end Mirrors

/-- What the desk sees of a run of a crowd is a run of a room. -/
theorem Crowd.Reach.mirrored (h : Crowd.Reach d w) :
    ∃ r, Mirrors w r ∧ Room.Reach spare key d r := by
  induction h with
  | start => exact ⟨⟨d, [], []⟩, ⟨rfl, rfl, fun i th hi => by simp [empty] at hi, rfl⟩, .start⟩
  | step h hs ih =>
    obtain ⟨r, hm, hr⟩ := ih
    obtain ⟨r', hm', rfl | hs'⟩ := hm.step h.led hs
    · exact ⟨_, hm', hr⟩
    · exact ⟨_, hm', hr.step hs'⟩

end

end Turnstile.Admission
