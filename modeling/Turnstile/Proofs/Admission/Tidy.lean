import Turnstile.Proofs.Admission.Room

/-!
# A tidy room

`Room.Tidy` is what holds of a room between any two steps: at most one seat is inside, under the
ticket that holds the latch; the pool is rested unless that seat has its permits; the ledger has
given out the first candidates, one for each patient seat whose walk is over; and a seat that was
granted the lock finds what it would find after those that were granted it before.

The lemmas here say how a tidy room changes when one seat does: outside (`Tidy.reseat`), when it is
granted the lock (`Tidy.enter`), inside (`Tidy.proceed`) and when it lets go (`Tidy.depart`). They
all are cases of `Tidy.set`.
-/

namespace Turnstile.Admission

namespace Phase

/-- The lock that is held in a phase. -/
def hold? : Phase → Option Hold
  | locked l => some l
  | pooling l _ _ => some l
  | walking l _ _ => some l
  | walked l _ _ => some l
  | leaving l _ => some l
  | unlocking owner _ => some (.fair owner)
  | _ => none

/-- Inside, and no candidate was taken yet. -/
def isEarly : Phase → Bool
  | locked _ => true
  | pooling _ _ _ => true
  | walking _ _ _ => true
  | _ => false

def hasPermits : Phase → Bool
  | walking _ _ _ => true
  | walked _ _ _ => true
  | _ => false

/-- The lock was not granted. -/
def isOutside (spare : Bool) : Phase → Prop
  | started => True
  | rating _ => True
  | admitted => True
  | lockLost => spare = true
  | ended r => ∃ e, r = .error e
  | _ => False

end Phase

/-- What is found under the lock when `k` candidates are taken before. -/
def share (free : List Candidate) (first : UInt64) (p : Policy) (k : Nat) : Found :=
  match free[k]? with
  | none => .error .noCandidates
  | some c =>
    if p.isPatient then .ok (first + UInt64.ofNat k, c) else .error (.invalid .waitTooLong)

/-- The phase is one of a reservation that was granted the lock when `rest` was free, and that is to
find `found`. -/
def Phase.Fits (spare : Bool) (rest : List Candidate) (found : Found) (s : Seat) : Phase → Prop
  | locked l => l.isSpare = spare
  | pooling l cs b => l.isSpare = spare ∧ b = false ∧ cs ≠ [] ∧ Policy.ranked cs = rest
  | walking l b cs => l.isSpare = spare ∧ b = false ∧ cs = rest ∧ s.policy.isPatient = true
  | walked l b f => l.isSpare = spare ∧ b = false ∧ f = found
  | leaving l f => l.isSpare = spare ∧ f = found
  | unlocking _ f => spare = false ∧ f = found
  | ended r => r = found.map (reservation s.request spare)
  | _ => False

/-- A seat that is inside, under its ticket. -/
structure Visit where
  seat : Nat
  ticket : Ticket
  phase : Phase

/-- How many of them take a candidate, as long as there is one. -/
def patients (order : List (Nat × Bool)) : Nat := order.countP (·.2)

/-- Those whose candidates were taken. -/
def spent (order : List (Nat × Bool)) (cur : Option Visit) : List (Nat × Bool) :=
  if cur.any (·.phase.isEarly) then order.dropLast else order

namespace Room

/-- The one seat that is inside. -/
structure Inside (spare : Bool) (key : SlotKey) (r : Room) (u : Visit) : Prop where
  checked : Limits.checkKey key.text = .ok ()
  latch : (r.desk.store.latch (latchName spare key)).holder? = some u.ticket
  bound : u.ticket < r.desk.tickets
  last : ∃ o b, r.order = o ++ [(u.seat, b)]
  seat : ∃ s, r.seats[u.seat]? = some s ∧ s.phase = u.phase
  hold : ∃ l, u.phase.hold? = some l ∧ Bears spare key r.desk.store u.ticket l

/-- A seat that stands in the line of the latch. -/
structure InLine (spare : Bool) (key : SlotKey) (d : Desk) (cur : Option Visit) (φ : Phase)
    (x : Call × Ticket × Local.Waiting) : Prop where
  checked : Limits.checkKey key.text = .ok ()
  phase : φ = .door spare
  bound : x.2.1 < d.tickets
  other : ∀ u ∈ cur, u.ticket ≠ x.2.1
  turn : ∃ owner deadline, x.1.wants? = some owner ∧
    x.2.2 = .turn (latchName spare key) owner deadline

structure Tidy (spare : Bool) (slot : Slot) (l₀ : Ledger) (r : Room) (cur : Option Visit) :
    Prop where
  keyed : ∀ (i : Nat) (s : Seat), r.seats[i]? = some s → s.request.slot.key = slot.key
  known : ∀ x ∈ r.order, ∃ s, r.seats[x.1]? = some s ∧ x.2 = s.policy.isPatient
  once : (r.order.map (·.1)).Nodup
  outside : ∀ (i : Nat) (s : Seat), r.seats[i]? = some s → i ∉ r.order.map (·.1) → s.phase.isOutside spare
  fits : ∀ (n : Nat) (x : Nat × Bool) (s : Seat), r.order[n]? = some x →
    r.seats[x.1]? = some s →
    s.phase.Fits spare ((Policy.ranked (l₀.query slot)).drop (patients (r.order.take n)))
      (share (Policy.ranked (l₀.query slot)) l₀.nextId s.policy (patients (r.order.take n))) s
  alone : ∀ (i : Nat) (s : Seat), r.seats[i]? = some s → s.phase.hold? ≠ none →
    ∃ u, cur = some u ∧ u.seat = i
  inside : ∀ u, cur = some u → Inside spare slot.key r u
  members : ∀ t ∈ (r.desk.store.latch (latchName spare slot.key)).members, t < r.desk.tickets
  inLine : ∀ (i : Nat) (s : Seat) x, r.seats[i]? = some s → s.waits = some x →
    InLine spare slot.key r.desk cur s.phase x
  apart : ∀ (i j : Nat) (s s' : Seat) x x', i ≠ j → r.seats[i]? = some s →
    r.seats[j]? = some s' → s.waits = some x → s'.waits = some x' → x.2.1 ≠ x'.2.1
  pool : if cur.any (·.phase.hasPermits) then r.desk.store.Lent slot.key.text
    else r.desk.store.Rested slot.key.text
  drawn : Drawn l₀ slot r.desk.ledger
    (min (patients (spent r.order cur)) (Policy.ranked (l₀.query slot)).length)

end Room

section

variable {spare : Bool} {slot : Slot} {l₀ : Ledger} {r : Room} {cur : Option Visit} {d d' : Desk}
  {key : SlotKey} {s : Seat} {i : Nat} {l : Hold} {t : Ticket}

theorem Room.InLine.mono {φ : Phase} {x : Call × Ticket × Local.Waiting}
    (h : InLine spare key d cur φ x) (hd : d.tickets ≤ d'.tickets) :
    InLine spare key d' cur φ x :=
  { h with bound := Nat.lt_of_lt_of_le h.bound hd }

theorem patients_concat (o : List (Nat × Bool)) (b : Bool) :
    patients (o ++ [(i, b)]) = patients o + b.toNat := by
  unfold patients
  rw [List.countP_append, List.countP_singleton]
  cases b <;> rfl

theorem Phase.isOutside.hold? {φ : Phase} (h : φ.isOutside spare) : φ.hold? = none := by
  cases φ <;> first | rfl | cases h

theorem Bears.isSpare {st : Local.Store} (h : Bears spare key st t l) : l.isSpare = spare := by
  cases l <;> exact h.1.symm

/-- Nobody went in or out, and nothing was taken. -/
structure Desk.Quiet (spare : Bool) (key : SlotKey) (d d' : Desk) : Prop where
  holder : (d'.store.latch (latchName spare key)).holder? =
    (d.store.latch (latchName spare key)).holder?
  members : ∀ t ∈ (d'.store.latch (latchName spare key)).members, t < d'.tickets
  owner : d'.store.holders.get? key.text = d.store.holders.get? key.text
  pool : ∀ p, d'.store.pools.get? key.text = some p → d.store.pools.get? key.text = some p
  ledger : d'.ledger = d.ledger
  tickets : d.tickets ≤ d'.tickets

theorem Bears.congr {st st' : Local.Store} (h : Bears spare key st t l)
    (ho : st'.holders.get? key.text = st.holders.get? key.text) : Bears spare key st' t l := by
  cases l with
  | fair owner => exact ⟨h.1, ho.trans h.2⟩
  | spare held => exact h

theorem Desk.Aside.quiet (h : d.Aside spare key d')
    (hm : ∀ t ∈ (d.store.latch (latchName spare key)).members, t < d.tickets) :
    d.Quiet spare key d' where
  holder := by rw [h.store.latch]
  members t ht := by
    rw [h.store.latch] at ht
    exact Nat.lt_of_lt_of_le (hm t ht) h.tickets
  owner := h.store.holder
  pool := h.store.pool
  ledger := h.ledger
  tickets := h.tickets

namespace Room.Tidy

theorem start (hd : Ledger.Distinct d.ledger.rows)
    (hm : ∀ t ∈ (d.store.latch (latchName spare slot.key)).members, t < d.tickets)
    (hr : d.store.Rested slot.key.text) : Tidy spare slot d.ledger ⟨d, [], []⟩ none where
  keyed i s hi := by simp at hi
  known x hx := by cases hx
  once := List.nodup_nil
  outside i s hi := by simp at hi
  fits n x s hn := by simp at hn
  alone i s hi := by simp at hi
  inside u hu := by cases hu
  members := hm
  inLine i s x hi := by simp at hi
  apart i j s s' x x' _ hi := by simp at hi
  pool := hr
  drawn := by
    show Drawn d.ledger slot d.ledger (min 0 _)
    rw [Nat.zero_min]
    exact .start hd

theorem quiet (h : Tidy spare slot l₀ r cur) (hq : r.desk.Quiet spare slot.key d) :
    Tidy spare slot l₀ { r with desk := d } cur :=
  { h with
    inside := fun u hu => by
      obtain ⟨hc, hl, hb, ho, hs, l, hh, hbear⟩ := h.inside u hu
      exact ⟨hc, hq.holder.trans hl, Nat.lt_of_lt_of_le hb hq.tickets, ho, hs, l, hh,
        hbear.congr hq.owner⟩
    members := hq.members
    inLine := fun i s x hi hx => (h.inLine i s x hi hx).mono hq.tickets
    pool := by
      have := h.pool
      split at this
      · rename_i hc
        rw [if_pos hc]
        exact fun p hp => this p (hq.pool p hp)
      · rename_i hc
        rw [if_neg hc]
        exact fun p hp => this p (hq.pool p hp)
    drawn := by
      show Drawn l₀ slot d.ledger _
      rw [hq.ledger]
      exact h.drawn }

theorem order_lt (h : Tidy spare slot l₀ r cur) (hi : i ∈ r.order.map (·.1)) :
    i < r.seats.length := by
  obtain ⟨x, hx, rfl⟩ := List.mem_map.1 hi
  obtain ⟨s, hs, -⟩ := h.known x hx
  exact (List.getElem?_eq_some_iff.1 hs).1

theorem arrive (h : Tidy spare slot l₀ r cur) (p : Policy) {q : Request}
    (hq : q.slot.key = slot.key) :
    Tidy spare slot l₀ { r with seats := r.seats ++ [⟨p, q, .start p, none⟩] } cur := by
  have old {i : Nat} {s : Seat} (hi : i < r.seats.length)
      (hs : (r.seats ++ [⟨p, q, .start p, none⟩])[i]? = some s) : r.seats[i]? = some s := by
    rwa [List.getElem?_append_left hi] at hs
  have new {i : Nat} {s : Seat} (hs : (r.seats ++ [⟨p, q, .start p, none⟩])[i]? = some s) :
      r.seats[i]? = some s ∨ s = ⟨p, q, .start p, none⟩ := by
    by_cases hi : i < r.seats.length
    · exact .inl (old hi hs)
    · rw [List.getElem?_append_right (Nat.le_of_not_lt hi), List.getElem?_singleton] at hs
      split at hs
      · exact .inr (Option.some.inj hs).symm
      · cases hs
  have hout : (Phase.start p).isOutside spare := by
    unfold Phase.start
    split <;> trivial
  have keep {i : Nat} {s : Seat} (hs : r.seats[i]? = some s) :
      (r.seats ++ [⟨p, q, .start p, none⟩])[i]? = some s := by
    rw [List.getElem?_append_left (List.getElem?_eq_some_iff.1 hs).1, hs]
  exact
    { keyed := fun i s hi => by
        rcases new hi with hi | rfl
        · exact h.keyed i s hi
        · exact hq
      known := fun x hx => by
        obtain ⟨s, hs, hb⟩ := h.known x hx
        exact ⟨s, keep hs, hb⟩
      once := h.once
      outside := fun i s hi hn => by
        rcases new hi with hi | rfl
        · exact h.outside i s hi hn
        · exact hout
      fits := fun n x s hn hs => by
        refine h.fits n x s hn (old (h.order_lt ?_) hs)
        exact List.mem_map.2 ⟨x, List.mem_of_getElem? hn, rfl⟩
      alone := fun i s hi hh => by
        rcases new hi with hi | rfl
        · exact h.alone i s hi hh
        · exact absurd hout.hold? hh
      inside := fun u hu => by
        obtain ⟨hc, hl, hb, ho, ⟨s, hs, hp⟩, hh⟩ := h.inside u hu
        exact ⟨hc, hl, hb, ho, ⟨s, keep hs, hp⟩, hh⟩
      members := h.members
      inLine := fun i s x hi hx => by
        rcases new hi with hi | rfl
        · exact h.inLine i s x hi hx
        · cases hx
      apart := fun i j s s' x x' hij hi hj hx hx' => by
        rcases new hi with hi | rfl
        · rcases new hj with hj | rfl
          · exact h.apart i j s s' x x' hij hi hj hx hx'
          · cases hx'
        · cases hx
      pool := h.pool
      drawn := h.drawn }

/-- One seat changes; `e` says whether it was granted the lock now. -/
theorem set (h : Tidy spare slot l₀ r cur) (cur' : Option Visit) (hi : r.seats[i]? = some s)
    {ψ : Phase}
    {x : Option (Call × Ticket × Local.Waiting)} {e : List (Nat × Bool)}
    (he : ∀ y ∈ e, y = (i, s.policy.isPatient)) (once : ((r.order ++ e).map (·.1)).Nodup)
    (outside : i ∉ (r.order ++ e).map (·.1) → ψ.isOutside spare)
    (fits : ∀ n b, (r.order ++ e)[n]? = some (i, b) →
      ψ.Fits spare ((Policy.ranked (l₀.query slot)).drop (patients ((r.order ++ e).take n)))
        (share (Policy.ranked (l₀.query slot)) l₀.nextId s.policy
          (patients ((r.order ++ e).take n))) s)
    (others : ∀ u, cur = some u → u.seat ≠ i → cur' = some u)
    (own : ψ.hold? ≠ none → ∃ u, cur' = some u ∧ u.seat = i)
    (inside : ∀ u, cur' = some u →
      Inside spare slot.key ⟨d, r.seats.set i ⟨s.policy, s.request, ψ, x⟩, r.order ++ e⟩ u)
    (members : ∀ t ∈ (d.store.latch (latchName spare slot.key)).members, t < d.tickets)
    (line : ∀ j s' y, j ≠ i → r.seats[j]? = some s' → s'.waits = some y →
      InLine spare slot.key d cur' s'.phase y)
    (ownLine : ∀ y, x = some y → InLine spare slot.key d cur' ψ y)
    (apart : ∀ y, x = some y → ∀ j s' y', j ≠ i → r.seats[j]? = some s' → s'.waits = some y' →
      y.2.1 ≠ y'.2.1)
    (pool : if cur'.any (·.phase.hasPermits) then d.store.Lent slot.key.text
      else d.store.Rested slot.key.text)
    (drawn : Drawn l₀ slot d.ledger
      (min (patients (spent (r.order ++ e) cur')) (Policy.ranked (l₀.query slot)).length)) :
    Tidy spare slot l₀ ⟨d, r.seats.set i ⟨s.policy, s.request, ψ, x⟩, r.order ++ e⟩ cur' := by
  have hlt := (List.getElem?_eq_some_iff.1 hi).1
  have place {y : Nat × Bool} (hy : ∃ s, r.seats[y.1]? = some s ∧ y.2 = s.policy.isPatient) :
      ∃ s', (r.seats.set i ⟨s.policy, s.request, ψ, x⟩)[y.1]? = some s' ∧
        y.2 = s'.policy.isPatient := by
    obtain ⟨j, b⟩ := y
    obtain ⟨s', hs, hb⟩ := hy
    by_cases hj : j = i
    · subst hj
      rw [hi] at hs
      cases hs
      exact ⟨_, List.getElem?_set_self hlt, hb⟩
    · exact ⟨s', by rw [List.getElem?_set_ne (Ne.symm hj), hs], hb⟩
  exact
    { keyed := fun j s' hj => by
        rcases getElem?_set_cases hj with ⟨rfl, rfl⟩ | ⟨-, hj⟩
        · exact h.keyed _ s hi
        · exact h.keyed j s' hj
      known := fun y hy => by
        refine place ?_
        rcases List.mem_append.1 hy with hy | hy
        · exact h.known y hy
        · exact ⟨s, by rw [he y hy, hi], by rw [he y hy]⟩
      once := once
      outside := fun j s' hj hn => by
        rcases getElem?_set_cases hj with ⟨rfl, rfl⟩ | ⟨-, hj⟩
        · exact outside hn
        · refine h.outside j s' hj fun hm => hn ?_
          rw [List.map_append]
          exact List.mem_append_left _ hm
      fits := fun n y s' hn hs => by
        obtain ⟨j, b⟩ := y
        rcases getElem?_set_cases hs with ⟨rfl, rfl⟩ | ⟨hne, hs⟩
        · exact fits n b hn
        · by_cases hl : n < r.order.length
          · rw [List.take_append_of_le_length (Nat.le_of_lt hl)]
            rw [List.getElem?_append_left hl] at hn
            exact h.fits n _ s' hn hs
          · rw [List.getElem?_append_right (Nat.le_of_not_lt hl)] at hn
            have := he _ (List.mem_of_getElem? hn)
            exact absurd (Prod.mk.inj this).1 hne
      alone := fun j s' hj hh => by
        rcases getElem?_set_cases hj with ⟨rfl, rfl⟩ | ⟨hne, hj⟩
        · exact own hh
        · obtain ⟨u, hu, rfl⟩ := h.alone j s' hj hh
          exact ⟨u, others u hu hne, rfl⟩
      inside := inside
      members := members
      inLine := fun j s' y hj hy => by
        rcases getElem?_set_cases hj with ⟨rfl, rfl⟩ | ⟨hne, hj⟩
        · exact ownLine y hy
        · exact line j s' y hne hj hy
      apart := fun j k s₁ s₂ y₁ y₂ hjk hj hk hy₁ hy₂ => by
        rcases getElem?_set_cases hj with ⟨rfl, rfl⟩ | ⟨hji, hj₁⟩
        · rcases getElem?_set_cases hk with ⟨rfl, rfl⟩ | ⟨hki, hk₁⟩
          · exact absurd rfl hjk
          · exact apart y₁ hy₁ k s₂ y₂ hki hk₁ hy₂
        · rcases getElem?_set_cases hk with ⟨rfl, rfl⟩ | ⟨-, hk₁⟩
          · exact (apart y₂ hy₂ j s₁ y₁ hji hj₁ hy₁).symm
          · exact h.apart j k s₁ s₂ y₁ y₂ hjk hj₁ hk₁ hy₁ hy₂
      pool := pool
      drawn := drawn }

/-- A seat whose phase is none of a reservation that was granted the lock. -/
theorem not_granted (h : Tidy spare slot l₀ r cur) (hi : r.seats[i]? = some s)
    (hf : ∀ rest found, ¬ s.phase.Fits spare rest found s) : i ∉ r.order.map (·.1) := by
  intro hm
  obtain ⟨x, hx, rfl⟩ := List.mem_map.1 hm
  obtain ⟨n, hn⟩ := List.mem_iff_getElem?.1 hx
  exact hf _ _ (h.fits n x s hn hi)

theorem seat_mem (h : Tidy spare slot l₀ r cur) {u : Visit} (hu : cur = some u) :
    u.seat ∈ r.order.map (·.1) := by
  obtain ⟨o, b, ho⟩ := (h.inside u hu).last
  rw [ho, List.map_append]
  exact List.mem_append_right _ (List.mem_singleton_self _)

theorem reseat (h : Tidy spare slot l₀ r cur) (hi : r.seats[i]? = some s)
    (hn : i ∉ r.order.map (·.1)) {ψ : Phase} (hψ : ψ.isOutside spare)
    {x : Option (Call × Ticket × Local.Waiting)}
    (ownLine : ∀ y, x = some y → InLine spare slot.key r.desk cur ψ y)
    (apart : ∀ y, x = some y → ∀ j s' y', j ≠ i → r.seats[j]? = some s' → s'.waits = some y' →
      y.2.1 ≠ y'.2.1) :
    Tidy spare slot l₀ { r with seats := r.seats.set i ⟨s.policy, s.request, ψ, x⟩ } cur := by
  have hne {u : Visit} (hu : cur = some u) : u.seat ≠ i := fun he => hn (he ▸ h.seat_mem hu)
  have := h.set cur hi (ψ := ψ) (x := x) (e := []) (d := r.desk) nofun
    (by rw [List.append_nil]; exact h.once) (fun _ => hψ)
    (fun n b hb => by
      rw [List.append_nil] at hb
      exact absurd (List.mem_map.2 ⟨_, List.mem_of_getElem? hb, rfl⟩) hn)
    (fun u hu _ => hu) (fun hh => absurd hψ.hold? hh)
    (fun u hu => by
      obtain ⟨hc, hl, hb, ho, ⟨s', hs, hp⟩, hh⟩ := h.inside u hu
      rw [List.append_nil]
      exact ⟨hc, hl, hb, ho, ⟨s', by rw [List.getElem?_set_ne (hne hu).symm, hs], hp⟩, hh⟩)
    h.members (fun j s' y _ hj hy => h.inLine j s' y hj hy) ownLine apart h.pool
    (by rw [List.append_nil]; exact h.drawn)
  rwa [List.append_nil] at this

theorem enter (h : Tidy spare slot l₀ r none) (hi : r.seats[i]? = some s)
    (hn : i ∉ r.order.map (·.1)) (hl : Bears spare slot.key d.store t l)
    (checked : Limits.checkKey slot.key.text = .ok ())
    (holder : (d.store.latch (latchName spare slot.key)).holder? = some t)
    (bound : t < d.tickets) (tickets : r.desk.tickets ≤ d.tickets)
    (ledger : d.ledger = r.desk.ledger) (pools : d.store.pools = r.desk.store.pools)
    (members : ∀ t ∈ (d.store.latch (latchName spare slot.key)).members, t < d.tickets)
    (apart : ∀ j s' y, j ≠ i → r.seats[j]? = some s' → s'.waits = some y → t ≠ y.2.1) :
    Tidy spare slot l₀
      ⟨d, r.seats.set i ⟨s.policy, s.request, .locked l, none⟩,
        r.order ++ [(i, s.policy.isPatient)]⟩
      (some ⟨i, t, .locked l⟩) := by
  have hlt := (List.getElem?_eq_some_iff.1 hi).1
  refine h.set _ hi (by simp) ?_ (fun hm => ?_) (fun n b hb => hl.isSpare)
    (fun u hu => nomatch hu) (fun _ => ⟨_, rfl, rfl⟩) ?_ members ?_ (fun y hy => nomatch hy)
    (fun y hy => nomatch hy) ?_ ?_
  · rw [List.map_append, List.nodup_append]
    refine ⟨h.once, List.nodup_singleton _, fun j hj k hk => ?_⟩
    rw [List.mem_singleton.1 hk]
    rintro rfl
    exact hn hj
  · simp at hm
  · rintro u ⟨⟩
    exact ⟨checked, holder, bound, ⟨_, _, rfl⟩, ⟨_, List.getElem?_set_self hlt, rfl⟩,
      l, rfl, hl⟩
  · intro j s' y hj hs hy
    have hline := (h.inLine j s' y hs hy).mono tickets
    exact { hline with other := fun u hu => by cases hu; exact apart j s' y hj hs hy }
  · show d.store.Rested slot.key.text
    intro p hp
    rw [pools] at hp
    exact h.pool p hp
  · have : spent (r.order ++ [(i, s.policy.isPatient)]) (some ⟨i, t, .locked l⟩) = r.order :=
      List.dropLast_concat
    rw [this, ledger]
    exact h.drawn

theorem index_eq (h : Tidy spare slot l₀ r cur) {o : List (Nat × Bool)} {n : Nat} {b b' : Bool}
    (ho : r.order = o ++ [(i, b)]) (hn : r.order[n]? = some (i, b')) : n = o.length := by
  have h₁ : (r.order.map (·.1))[n]? = some i := by rw [List.getElem?_map, hn]; rfl
  have h₂ : (r.order.map (·.1))[o.length]? = some i := by
    rw [List.getElem?_map, ho, List.getElem?_concat_length]
    rfl
  exact (List.getElem?_inj (List.getElem?_eq_some_iff.1 h₁).1 h.once).1 (h₁.trans h₂.symm)

/-- What is known of the seat that is inside. -/
theorem holding (h : Tidy spare slot l₀ r cur) (hi : r.seats[i]? = some s)
    (hh : s.phase.hold? = some l) :
    ∃ t o, cur = some ⟨i, t, s.phase⟩ ∧ r.order = o ++ [(i, s.policy.isPatient)] ∧
      Bears spare slot.key r.desk.store t l ∧ Limits.checkKey slot.key.text = .ok () ∧
      (r.desk.store.latch (latchName spare slot.key)).holder? = some t ∧
      s.phase.Fits spare ((Policy.ranked (l₀.query slot)).drop (patients o))
        (share (Policy.ranked (l₀.query slot)) l₀.nextId s.policy (patients o)) s := by
  obtain ⟨u, hu, rfl⟩ := h.alone i s hi (by rw [hh]; exact nofun)
  obtain ⟨hc, hl, -, ⟨o, b, ho⟩, ⟨s', hs, hp⟩, l', hh', hb⟩ := h.inside u hu
  cases hi.symm.trans hs
  obtain ⟨j, t, φ⟩ := u
  obtain rfl : s.phase = φ := hp
  cases hh.symm.trans hh'
  have hlast : r.order[o.length]? = some (j, b) := by
    rw [ho, List.getElem?_concat_length]
  have hb' : b = s.policy.isPatient := by
    obtain ⟨s', hs', hb'⟩ := h.known (j, b) (List.mem_of_getElem? hlast)
    cases hi.symm.trans hs'
    exact hb'
  have hf := h.fits _ _ s hlast hi
  rw [ho, List.take_left] at hf
  exact ⟨t, o, hu, hb' ▸ ho, hb, hc, hl, hf⟩

theorem proceed {o : List (Nat × Bool)} {ψ : Phase}
    (h : Tidy spare slot l₀ r (some ⟨i, t, s.phase⟩)) (hi : r.seats[i]? = some s)
    (ho : r.order = o ++ [(i, s.policy.isPatient)]) (hh : s.phase.hold? = some l)
    (hψ : ψ.hold? = some l)
    (latch : d.store.latch (latchName spare slot.key) =
      r.desk.store.latch (latchName spare slot.key))
    (owner : d.store.holders.get? slot.key.text = r.desk.store.holders.get? slot.key.text)
    (tickets : r.desk.tickets ≤ d.tickets)
    (fits : ψ.Fits spare ((Policy.ranked (l₀.query slot)).drop (patients o))
      (share (Policy.ranked (l₀.query slot)) l₀.nextId s.policy (patients o)) s)
    (pool : if ψ.hasPermits then d.store.Lent slot.key.text else d.store.Rested slot.key.text)
    (drawn : Drawn l₀ slot d.ledger
      (min (if ψ.isEarly then patients o else patients r.order)
        (Policy.ranked (l₀.query slot)).length)) :
    Tidy spare slot l₀ ⟨d, r.seats.set i ⟨s.policy, s.request, ψ, none⟩, r.order⟩
      (some ⟨i, t, ψ⟩) := by
  have hlt := (List.getElem?_eq_some_iff.1 hi).1
  have hm : i ∈ r.order.map (·.1) := h.seat_mem rfl
  have := h.set (some ⟨i, t, ψ⟩) hi (ψ := ψ) (x := none) (e := []) (d := d) nofun
    (by rw [List.append_nil]; exact h.once)
    (fun hn => absurd (by rwa [List.append_nil]) hn)
    (fun n b hb => by
      rw [List.append_nil] at hb ⊢
      rw [h.index_eq ho hb, ho, List.take_left]
      exact fits)
    (fun u hu hne => by cases hu; exact absurd rfl hne) (fun _ => ⟨_, rfl, rfl⟩)
    (fun u hu => by
      cases hu
      obtain ⟨hc, hl, hb, hlast, -, l', hh', hbear⟩ := h.inside _ rfl
      cases hh.symm.trans hh'
      rw [List.append_nil]
      exact ⟨hc, by rw [latch]; exact hl, Nat.lt_of_lt_of_le hb tickets, hlast,
        ⟨_, List.getElem?_set_self hlt, rfl⟩, l, hψ, hbear.congr owner⟩)
    (fun t ht => Nat.lt_of_lt_of_le (h.members t (latch ▸ ht)) tickets)
    (fun j s' y _ hj hy => by
      have hline := (h.inLine j s' y hj hy).mono tickets
      exact { hline with other := fun u hu => by cases hu; exact hline.other ⟨i, t, s.phase⟩ rfl })
    (fun y hy => nomatch hy) (fun y hy => nomatch hy) pool
    (by
      rw [List.append_nil, spent]
      cases he : ψ.isEarly with
      | true => simpa [he, ho] using drawn
      | false => simpa [he] using drawn)
  rwa [List.append_nil] at this

theorem depart {o : List (Nat × Bool)} {res : Except AdmissionError Reservation}
    (h : Tidy spare slot l₀ r (some ⟨i, t, s.phase⟩)) (hi : r.seats[i]? = some s)
    (ho : r.order = o ++ [(i, s.policy.isPatient)]) (he : s.phase.isEarly = false)
    (hp : s.phase.hasPermits = false)
    (fits : res = (share (Policy.ranked (l₀.query slot)) l₀.nextId s.policy (patients o)).map
      (reservation s.request spare))
    (members : ∀ t ∈ (d.store.latch (latchName spare slot.key)).members,
      t ∈ (r.desk.store.latch (latchName spare slot.key)).members)
    (tickets : d.tickets = r.desk.tickets) (ledger : d.ledger = r.desk.ledger)
    (pools : d.store.pools = r.desk.store.pools) :
    Tidy spare slot l₀ ⟨d, r.seats.set i ⟨s.policy, s.request, .ended res, none⟩, r.order⟩ none := by
  have hm : i ∈ r.order.map (·.1) := h.seat_mem rfl
  have := h.set none hi (ψ := .ended res) (x := none) (e := []) (d := d) nofun
    (by rw [List.append_nil]; exact h.once)
    (fun hn => absurd (by rwa [List.append_nil]) hn)
    (fun n b hb => by
      rw [List.append_nil] at hb ⊢
      rw [h.index_eq ho hb, ho, List.take_left]
      exact fits)
    (fun u hu hne => by cases hu; exact absurd rfl hne) (fun hh => absurd rfl hh)
    (fun u hu => nomatch hu) (fun t ht => tickets ▸ h.members t (members t ht))
    (fun j s' y _ hj hy => by
      have hline := (h.inLine j s' y hj hy).mono (Nat.le_of_eq tickets.symm)
      exact { hline with other := fun u hu => nomatch hu })
    (fun y hy => nomatch hy) (fun y hy => nomatch hy)
    (by
      have := h.pool
      simp only [Option.any_some, hp] at this
      show d.store.Rested slot.key.text
      intro p hp
      rw [pools] at hp
      exact this p hp)
    (by
      have := h.drawn
      rw [List.append_nil, ledger]
      simpa [spent, he] using this)
  rwa [List.append_nil] at this

end Room.Tidy

end

end Turnstile.Admission
