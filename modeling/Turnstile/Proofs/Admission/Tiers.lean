import Turnstile.Proofs.Admission.Custody
import Turnstile.Proofs.Local.Latches

/-!
# A lock that comes and goes

Reservations of one slot where the fair lock may be out of reach at any moment, so that some of them
go to the fair lock and some to its substitute, side by side. Any of them may be dropped.

`Tier` is what holds of one of the two locks between any two steps. Seen from it, a step is made by a
thread that stands at its door (`Tier.knock_answer`, `Tier.knock_block`), by the one that has it in
its hands (`Tier.depart`), by one that leaves the line (`Tier.quit`), or by one that has nothing to
do with it (`Tier.stay`). What a dropped reservation had in its hands goes to the task that releases
it (`Tier.inherit`).
-/

namespace Turnstile

namespace Local.Store

variable {s : Store} {t : Ticket} {name : String} {owner : Option Ulid}

theorem Begun.other {r : Store × Progress} (h : Begun s t name owner r) :
    (∀ n, n ≠ name → r.1.latch n = s.latch n) ∧ (owner = none → r.1.holders = s.holders) := by
  cases h with
  | refused s' o _ hl hh => exact ⟨fun n _ => by rw [hl], fun _ => hh⟩
  | granted s' _ hl hh =>
    refine ⟨fun n hn => by rw [hl, Function.update_of_ne hn], ?_⟩
    rintro rfl
    exact hh
  | waits s' deadline _ hl hh =>
    exact ⟨fun n hn => by rw [hl, Function.update_of_ne hn], fun _ => hh⟩

theorem Resumed.other {deadline : Nat} {r : Store × List Ticket × Progress}
    (h : Resumed s t name owner deadline r) :
    (∀ n, n ≠ name → r.1.latch n = s.latch n) ∧ (owner = none → r.1.holders = s.holders) := by
  cases h with
  | granted s' _ hl hh =>
    refine ⟨fun n _ => by rw [hl], ?_⟩
    rintro rfl
    exact hh
  | quits s' woken _ hl hh =>
    exact ⟨fun n hn => by rw [hl, Function.update_of_ne hn], fun _ => hh⟩
  | stays => exact ⟨fun _ _ => rfl, fun _ => rfl⟩

end Local.Store

namespace Admission

theorem latchName_ne (spare : Bool) (key : SlotKey) :
    latchName (!spare) key ≠ latchName spare key := by
  have h : Local.Store.lockName key.text ≠ key.text := by
    intro h
    have := congrArg String.length h
    simp [Local.Store.lockName] at this
  cases spare
  · exact h
  · exact h.symm

/-- The lock that `r` releases is held under the ticket `t`. -/
def Backs (key : SlotKey) (s : Local.Store) (t : Ticket) : Release → Prop
  | .lock k owner => k = key ∧ s.holders.get? key.text = some (owner, t)
  | .spareLock held => held = ⟨key.text, t⟩
  | .permits _ _ => False

namespace Desk

/-- The lock of a tier stays as it is. -/
structure Untouched (spare : Bool) (key : SlotKey) (d d' : Desk) : Prop where
  latch : d'.store.latch (latchName spare key) = d.store.latch (latchName spare key)
  holder : spare = false → d'.store.holders.get? key.text = d.store.holders.get? key.text

/-- Others were at the desk, but not for the locks of this key. -/
structure Elsewhere (key : SlotKey) (d d' : Desk) : Prop where
  locks : ∀ spare, d.Untouched spare key d'
  now : d.now ≤ d'.now
  tickets : d.tickets ≤ d'.tickets

/-- How a call is looked at: the locks answer, but the fair lock may be out of reach instead. All
other calls may be answered in any way. -/
def Tends (key : SlotKey) (d : Desk) (v : Slip) (d' : Desk) : (c : Call) → Look c.Answer Slip → Prop
  | .lock k owner wait, look =>
    d.Serves false key v d' (.lock k owner wait) look ∨
      v = none ∧ d' = d ∧ ∃ text, look = .answered (.error (.unavailable text))
  | .isHeldBy k owner, look =>
    d.Serves false key v d' (.isHeldBy k owner) look ∨
      d' = d ∧ ∃ text, look = .answered (.error (.unavailable text))
  | .unlock k owner, look =>
    d.Serves false key v d' (.unlock k owner) look ∨
      d' = d ∧ ∃ text, look = .answered (.error (.unavailable text))
  | .spareLock k wait, look => d.Serves true key v d' (.spareLock k wait) look
  | .spareUnlock held, look => d.Serves true key v d' (.spareUnlock held) look
  | _, look => d.Elsewhere key d' ∧ ∃ a, look = .answered a

/-- Whoever waits for a lock leaves its line. -/
def abandon (d : Desk) : Slip → Desk
  | some (t, w) => { d with store := (d.store.cancel t w).1 }
  | none => d

end Desk

/-- Reservations of the slots with one key, with a fair lock that comes and goes. -/
abbrev Office.tiers (key : SlotKey) : Office where
  State := Desk
  Pending := Slip
  Looks d c v d' look :=
    d.Tends key v.join d' c look ∨
      c.isAwaited = true ∧ v.join = none ∧ d' = d ∧ look = .blocked none
  Drops d v d' := d' = d.abandon v.join
  Stirs := Desk.Elsewhere key
  Opens _ q := q.slot.key = key

/-! ## Looks at the locks -/

section

variable {spare : Bool} {key : SlotKey} {d d' : Desk} {v : Slip} {c : Call} {t : Ticket}
  {r : Release}

theorem Backs.congr {s s' : Local.Store} (hs : s'.holders = s.holders) (h : Backs key s t r) :
    Backs key s' t r := by
  cases r with
  | lock k owner => exact ⟨h.1, by rw [hs]; exact h.2⟩
  | spareLock held => exact h
  | permits b k => exact h.elim

namespace Desk

theorem Untouched.refl : d.Untouched spare key d := ⟨rfl, fun _ => rfl⟩

theorem Elsewhere.refl : d.Elsewhere key d := ⟨fun _ => .refl, Nat.le_refl _, Nat.le_refl _⟩

theorem Untouched.backs (h : d.Untouched spare key d') (hr : r.tier? = some spare)
    (hb : Backs key d.store t r) : Backs key d'.store t r := by
  cases r with
  | lock k owner => cases hr; exact ⟨hb.1, (h.holder rfl).trans hb.2⟩
  | spareLock held => exact hb
  | permits b k => cases hr

/-- Who leaves a latch leaves the other lock alone. -/
theorem leaveLatch_untouched (spare : Bool) (key : SlotKey) (d : Desk) (t : Ticket) :
    d.Untouched (!spare) key
      { d with store := (d.store.leaveLatch (latchName spare key) t).1 } where
  latch := by
    dsimp only
    rw [Local.Store.latch_leaveLatch_eq, Function.update_of_ne (latchName_ne spare key)]
  holder _ := by
    dsimp only
    rw [Local.Store.holders_leaveLatch]

/-- Unlocking a fair lock leaves the substitute alone. -/
theorem unlock_untouched {u : Ulid} (h : d.store.holders.get? key.text = some (u, t)) :
    d.Untouched true key { d with store := (d.store.unlock key.text u).1 } where
  latch := by
    let erased : Local.Store := { d.store with holders := d.store.holders.erase key.text }
    dsimp only
    rw [Local.Store.unlock_of_mem h]
    exact (leaveLatch_untouched false key { d with store := erased } t).latch
  holder := nofun

/-- An attempt for a lock leaves the other one alone. -/
theorem attempt_untouched {a : Local.Attempt} {owner : Option Ulid}
    (ha : a.turn? = some (latchName spare key, owner)) (ho : owner = none ∨ spare = false)
    (hm : ∀ t ∈ (d.store.latch (latchName spare key)).members, t < d.tickets)
    (hv : ∀ x ∈ v, ∃ deadline, x.2 = .turn (latchName spare key) owner deadline) :
    d.Untouched (!spare) key (d.attempt a v).1 := by
  have hother : (∀ n, n ≠ latchName spare key →
      (d.attempt a v).1.store.latch n = d.store.latch n) ∧
      (owner = none → (d.attempt a v).1.store.holders = d.store.holders) := by
    rcases v with _ | ⟨t, w⟩
    · have ht : d.tickets ∉ (d.store.latch (latchName spare key)).members :=
        fun h => Nat.lt_irrefl _ (hm _ h)
      have hb : d.store.Begun d.tickets _ owner (d.store.begin d.tickets d.now a) :=
        Local.Store.begin_begun ha ht
      exact hb.other
    · obtain ⟨deadline, hw⟩ := hv _ rfl
      dsimp only at hw
      subst hw
      have hr : d.store.Resumed t _ owner deadline
          (d.store.resume t d.now (.turn (latchName spare key) owner deadline)) :=
        Local.Store.resume_resumed deadline
      exact hr.other
  refine ⟨hother.1 _ (latchName_ne spare key), fun hs => ?_⟩
  rcases ho with ho | ho
  · rw [hother.2 ho]
  · rw [ho] at hs
    cases hs

theorem Serves.untouched {look : Look c.Answer Slip} (hs : d.Serves spare key v d' c look)
    {p : Policy} {q : Request} (hq : q.slot.key = key) (ha : (Phase.door spare).Asks p q c)
    (hm : ∀ t ∈ (d.store.latch (latchName spare key)).members, t < d.tickets)
    (hv : ∀ x ∈ v, ∃ owner deadline, c.wants? = some owner ∧
      x.2 = .turn (latchName spare key) owner deadline) : d.Untouched (!spare) key d' := by
  subst hq
  have hturn {owner : Option Ulid} (ho : c.wants? = some owner) :
      ∀ x ∈ v, ∃ deadline, x.2 = .turn (latchName spare q.slot.key) owner deadline := by
    intro x hx
    obtain ⟨owner', deadline, ho', hw⟩ := hv x hx
    cases ho.symm.trans ho'
    exact ⟨deadline, hw⟩
  cases spare with
  | false =>
    cases ha with
    | lock u =>
      obtain ⟨rfl, -⟩ := hs
      exact attempt_untouched rfl (.inr rfl) hm (hturn rfl)
  | true =>
    cases ha with
    | spareLock =>
      obtain ⟨rfl, -⟩ := hs
      exact attempt_untouched rfl (.inl rfl) hm (hturn rfl)

/-- A look at a call for a lock is one at its tier, or the fair lock was out of reach. -/
theorem Tends.knock {look : Look c.Answer Slip} (h : d.Tends key v d' c look)
    (hc : c.tier? = some spare) :
    d.Serves spare key v d' c look ∨ d' = d ∧ ∃ a, look = .answered a ∧ c.locks a = false := by
  cases c with
  | lock k owner wait =>
    cases hc
    obtain h | ⟨-, rfl, text, rfl⟩ := h
    · exact .inl h
    · exact .inr ⟨rfl, _, rfl, rfl⟩
  | spareLock k wait => cases hc; exact .inl h
  | _ => cases hc

theorem Tends.elsewhere {look : Look c.Answer Slip} (h : d.Tends key v d' c look)
    (hc : c.turns = false) : d.Elsewhere key d' := by
  cases c with
  | lock => cases hc
  | unlock => cases hc
  | spareLock => cases hc
  | spareUnlock => cases hc
  | isHeldBy k owner =>
    obtain ⟨rfl, -⟩ | ⟨rfl, -⟩ := h
    · exact .refl
    · exact .refl
  | _ => exact h.1

/-- Only who asks for a lock is made to wait. -/
theorem Tends.blocked {u : Slip} (h : d.Tends key v d' c (.blocked u)) :
    ∃ spare, c.tier? = some spare := by
  cases c with
  | lock => exact ⟨false, rfl⟩
  | spareLock => exact ⟨true, rfl⟩
  | isHeldBy =>
    obtain ⟨-, h⟩ | ⟨-, text, h⟩ := h <;> cases h
  | unlock =>
    obtain ⟨-, h⟩ | ⟨-, text, h⟩ := h <;> cases h
  | spareUnlock => cases h.2
  | _ => obtain ⟨-, a, h⟩ := h; cases h

end Desk

end

/-! ## One lock in a crowd -/

/-- What a thread has to release, if it was granted a lock. -/
def Thread.keeps? {O : Office} (h : History) (th : Thread O) : Option Release :=
  if th.dropped then none else th.task.keeps? h

section

variable {spare b : Bool} {key : SlotKey} {w w' : Crowd (.tiers key)} {th : Thread (.tiers key)}
  {cur : Option (Nat × Ticket)} {i : Nat} {t : Ticket} {d : Desk}

/-- A thread stands in the line of a lock. -/
def Thread.Queues (spare : Bool) (th : Thread (.tiers key)) (t : Ticket) : Prop :=
  ∃ owner deadline, th.pending.join = some (t, .turn (latchName spare key) owner deadline)

/-- Who stands in a line is at the call for the lock. -/
def Thread.Waits (th : Thread (.tiers key)) : Prop :=
  ∀ x, th.pending.join = some x → ∃ c spare owner deadline, th.strand.call? = some c ∧
    c.tier? = some spare ∧ c.wants? = some owner ∧ x.2 = .turn (latchName spare key) owner deadline

/-- One lock of a crowd; `cur` is the thread that had it in its hands last, and the ticket. -/
structure Tier (spare : Bool) (w : Crowd (.tiers key)) (cur : Option (Nat × Ticket)) : Prop where
  alone : ∀ (i : Nat) th r, w.threads[i]? = some th → th.keeps? (own i w.log) = some r →
    r.tier? = some spare → ∃ t, cur = some (i, t) ∧ Backs key w.state.store t r
  held : ∀ x, cur = some x → (w.state.store.latch (latchName spare key)).holder? = some x.2
  members : ∀ t ∈ (w.state.store.latch (latchName spare key)).members, t < w.state.tickets
  line : ∀ (i : Nat) th t, w.threads[i]? = some th → th.Queues spare t →
    t < w.state.tickets ∧ ∀ x, cur = some x → x.2 ≠ t
  apart : ∀ (i j : Nat) th th' t t', i ≠ j → w.threads[i]? = some th → w.threads[j]? = some th' →
    th.Queues spare t → th'.Queues spare t' → t ≠ t'

theorem Thread.keeps?_of_live {h : History} (hd : th.dropped = false) :
    th.keeps? h = th.task.keeps? h := by
  simp [Thread.keeps?, hd]

theorem Thread.not_queues (hp : th.pending.join = none) : ¬ th.Queues spare t := by
  rintro ⟨owner, deadline, hq⟩
  rw [hp] at hq
  cases hq

theorem Thread.Queues.unique {t' : Ticket} (h : th.Queues spare t) (h' : th.Queues b t') :
    spare = b ∧ t = t' := by
  obtain ⟨owner, deadline, hp⟩ := h
  obtain ⟨owner', deadline', hp'⟩ := h'
  have he := Option.some.inj (hp.symm.trans hp')
  simp only [Prod.mk.injEq, Local.Waiting.turn.injEq] at he
  refine ⟨?_, he.1⟩
  have hn : ¬ b = !spare := fun hb => latchName_ne spare key (hb ▸ he.2.1.symm)
  cases spare <;> cases b <;> simp_all

theorem Thread.Waits.at_call {c : Call} (h : th.Waits) (hc : th.strand.call? = some c)
    (hb : c.tier? = some b) (x : Ticket × Local.Waiting) (hx : x ∈ th.pending.join) :
    ∃ owner deadline, c.wants? = some owner ∧ x.2 = .turn (latchName b key) owner deadline := by
  obtain ⟨c', b', owner, deadline, hc', hb', ho, hw⟩ := h x hx
  cases hc.symm.trans hc'
  cases hb.symm.trans hb'
  exact ⟨owner, deadline, ho, hw⟩

namespace Tier

/-- The lock stays as it is. -/
theorem state (h : Tier spare w cur) (hd : w.state.Untouched spare key d)
    (ht : w.state.tickets ≤ d.tickets) : Tier spare { w with state := d } cur where
  alone i th r hi hk hr := by
    obtain ⟨t, hc, hb⟩ := h.alone i th r hi hk hr
    exact ⟨t, hc, hd.backs hr hb⟩
  held x hx := by
    rw [hd.latch]
    exact h.held x hx
  members t hm := by
    rw [hd.latch] at hm
    exact Nat.lt_of_lt_of_le (h.members t hm) ht
  line i th t hi hq := by
    obtain ⟨hb, hne⟩ := h.line i th t hi hq
    exact ⟨Nat.lt_of_lt_of_le hb ht, hne⟩
  apart := h.apart

/-- One thread has changed, and perhaps the lock. -/
theorem set (h : Tier spare w cur) (cur' : Option (Nat × Ticket)) (hi : w.threads[i]? = some th)
    {th' : Thread (.tiers key)} {log : List (Nat × Asked collaborators)}
    (hlog : ∀ j, j ≠ i → own j log = own j w.log) (tickets : w.state.tickets ≤ d.tickets)
    (others : ∀ j t r, j ≠ i → cur = some (j, t) → r.tier? = some spare →
      Backs key w.state.store t r → cur' = some (j, t) ∧ Backs key d.store t r)
    (own : ∀ r, th'.keeps? (own i log) = some r → r.tier? = some spare →
      ∃ t, cur' = some (i, t) ∧ Backs key d.store t r)
    (held : ∀ x, cur' = some x → (d.store.latch (latchName spare key)).holder? = some x.2)
    (members : ∀ t ∈ (d.store.latch (latchName spare key)).members, t < d.tickets)
    (line : ∀ x, cur' = some x → cur = some x ∨ ∀ (j : Nat) th t, j ≠ i →
      w.threads[j]? = some th → th.Queues spare t → x.2 ≠ t)
    (ownLine : ∀ t, th'.Queues spare t → t < d.tickets ∧ (∀ x, cur' = some x → x.2 ≠ t) ∧
      ∀ (j : Nat) th t', j ≠ i → w.threads[j]? = some th → th.Queues spare t' → t ≠ t') :
    Tier spare ⟨d, w.threads.set i th', log⟩ cur' where
  alone j th₁ r hj hk hr := by
    rcases getElem?_set_cases hj with ⟨rfl, rfl⟩ | ⟨hne, hj⟩
    · exact own r hk hr
    · dsimp only at hk
      rw [hlog j hne] at hk
      obtain ⟨t, hc, hb⟩ := h.alone j th₁ r hj hk hr
      exact ⟨t, others j t r hne hc hr hb⟩
  held := held
  members := members
  line j th₁ t hj hq := by
    rcases getElem?_set_cases hj with ⟨rfl, rfl⟩ | ⟨hne, hj⟩
    · exact ⟨(ownLine t hq).1, (ownLine t hq).2.1⟩
    · refine ⟨Nat.lt_of_lt_of_le (h.line j th₁ t hj hq).1 tickets, fun x hx => ?_⟩
      rcases line x hx with hc | hx
      · exact (h.line j th₁ t hj hq).2 x hc
      · exact hx j th₁ t hne hj hq
  apart j k th₁ th₂ t t' hjk hj hk hq hq' := by
    rcases getElem?_set_cases hj with ⟨rfl, rfl⟩ | ⟨hji, hj₁⟩
    · rcases getElem?_set_cases hk with ⟨rfl, rfl⟩ | ⟨hki, hk₁⟩
      · exact absurd rfl hjk
      · exact (ownLine t hq).2.2 k th₂ t' hki hk₁ hq'
    · rcases getElem?_set_cases hk with ⟨rfl, rfl⟩ | ⟨-, hk₁⟩
      · exact ((ownLine t' hq').2.2 j th₁ t hji hj₁ hq).symm
      · exact h.apart j k th₁ th₂ t t' hjk hj₁ hk₁ hq hq'

/-- A thread goes on that has nothing to do with the lock, or has let it be. -/
theorem stay (h : Tier spare w cur) (hi : w.threads[i]? = some th)
    {th' : Thread (.tiers key)} {log : List (Nat × Asked collaborators)}
    (hlog : ∀ j, j ≠ i → own j log = own j w.log) (hd : w.state.Untouched spare key d)
    (ht : w.state.tickets ≤ d.tickets)
    (hk : ∀ r, th'.keeps? (own i log) = some r → r.tier? = some spare →
      th.keeps? (own i w.log) = some r)
    (hq : ∀ t, th'.Queues spare t → th.Queues spare t) :
    Tier spare ⟨d, w.threads.set i th', log⟩ cur := by
  refine h.set cur hi hlog ht (fun j t r _ hc hr hb => ⟨hc, hd.backs hr hb⟩) (fun r hr hs => ?_)
    (fun x hx => ?_) (fun t hm => ?_) (fun x hx => .inl hx) (fun t hqt => ?_)
  · obtain ⟨t, hc, hb⟩ := h.alone i th r hi (hk r hr hs) hs
    exact ⟨t, hc, hd.backs hs hb⟩
  · rw [hd.latch]
    exact h.held x hx
  · rw [hd.latch] at hm
    exact Nat.lt_of_lt_of_le (h.members t hm) ht
  · obtain ⟨hb, hne⟩ := h.line i th t hi (hq t hqt)
    exact ⟨Nat.lt_of_lt_of_le hb ht, hne,
      fun j th₁ t' hj hth hq' => h.apart i j th th₁ t t' hj.symm hi hth (hq t hqt) hq'⟩

/-- The ticket that has the lock was drawn before. -/
theorem bound (h : Tier spare w cur) {x : Nat × Ticket} (hx : cur = some x) :
    x.2 < w.state.tickets :=
  h.members _ (Local.Latch.holder?_mem (h.held x hx))

/-! ### At the door -/

/-- A thread asks for the lock under a ticket that is nobody else's. -/
theorem knocks {p : Policy} {q : Request} {c : Call} {look : Look c.Answer Slip}
    (h : Tier spare w cur) (hw : th.Waits) (hi : w.threads[i]? = some th)
    (hc : th.strand.call? = some c) (hb : c.tier? = some spare) (hq : q.slot.key = key)
    (ha : (Phase.door spare).Asks p q c)
    (hs : w.state.Serves spare key th.pending.join d c look) :
    ∃ t, w.state.Draws th.pending.join t d ∧
      Knock spare key p q w.state.store t d.store c look ∧
      (∀ x ∈ (d.store.latch (latchName spare key)).members, x < d.tickets) ∧
      (∀ x, cur = some x → x.2 ≠ t) ∧
      ∀ (j : Nat) th t', j ≠ i → w.threads[j]? = some th → th.Queues spare t' → t ≠ t' := by
  have hqueue : ∀ x ∈ th.pending.join, th.Queues spare x.1 := by
    intro x hx
    obtain ⟨owner, deadline, -, hw⟩ := hw.at_call hc hb x hx
    exact ⟨owner, deadline, hx.trans (by rw [← hw])⟩
  have hv : ∀ x ∈ th.pending.join, x.1 < w.state.tickets ∧ ∃ owner deadline,
      c.wants? = some owner ∧ x.2 = .turn (latchName spare key) owner deadline :=
    fun x hx => ⟨(h.line i th x.1 hi (hqueue x hx)).1, hw.at_call hc hb x hx⟩
  subst hq
  obtain ⟨t, hd, hk, -, hm⟩ := hs.knock ha h.members hv
  refine ⟨t, hd, hk, fun x hx => ?_, ?_⟩
  · rcases hm x hx with rfl | hx
    · exact hd.bound
    · exact Nat.lt_of_lt_of_le (h.members x hx) hd.tickets
  obtain ht | ⟨-, rfl⟩ := hd.ticket
  · obtain ⟨x, hx, rfl⟩ := Option.map_eq_some_iff.1 ht
    have hqx := hqueue x hx
    exact ⟨(h.line i th x.1 hi hqx).2,
      fun j th₁ t' hj hth hq' => h.apart i j th th₁ x.1 t' hj.symm hi hth hqx hq'⟩
  · refine ⟨fun x hx => Nat.ne_of_lt (h.bound hx), fun j th₁ t' _ hth hq' => ?_⟩
    exact (Nat.ne_of_lt (h.line j th₁ t' hth hq').1).symm

theorem knock_answer {p : Policy} {q : Request} {c : Call} {a : c.Answer}
    {th' : Thread (.tiers key)} {log : List (Nat × Asked collaborators)}
    (h : Tier spare w cur) (hw : th.Waits) (hi : w.threads[i]? = some th)
    (hc : th.strand.call? = some c) (hb : c.tier? = some spare) (hq : q.slot.key = key)
    (ha : (Phase.door spare).Asks p q c)
    (hs : w.state.Serves spare key th.pending.join d c (.answered a))
    (hlog : ∀ j, j ≠ i → own j log = own j w.log) (hp : th'.pending = none)
    (hk : th'.keeps? (own i log) =
      ((Phase.door spare).next p q c a).hold?.map (Hold.release q)) :
    ∃ cur', Tier spare ⟨d, w.threads.set i th', log⟩ cur' := by
  obtain ⟨t, hd, hknock, hm, hcur, hothers⟩ := h.knocks hw hi hc hb hq ha hs
  have hnoq (t : Ticket) : ¬ th'.Queues spare t := Thread.not_queues (by rw [hp]; rfl)
  cases hknock with
  | enters l _ hnext hbears hfree hholder =>
    -- whoever had the lock last holds its latch under another ticket, so nobody had
    have hnone : cur = none := by
      cases hx : cur with
      | none => rfl
      | some x =>
        rw [h.held x hx] at hfree
        rcases hfree with hf | hf
        · cases hf
        · exact absurd (Option.some.inj hf) (hcur x hx)
    subst hnone
    rw [hnext] at hk
    refine ⟨some (i, t), h.set _ hi hlog hd.tickets (fun j t' r _ hx => by cases hx)
      (fun r hr hs => ?_) (fun x hx => ?_) hm (fun x hx => .inr ?_) (fun t' hq' => absurd hq' (hnoq t'))⟩
    · rw [hk] at hr
      cases hr
      refine ⟨t, rfl, ?_⟩
      subst hq
      cases l with
      | fair owner => exact ⟨rfl, hbears.2⟩
      | spare held => exact hbears.2
    · cases hx
      exact hholder
    · cases hx
      exact hothers
  | isRefused e _ hnext hholder hholders =>
    rw [hnext] at hk
    refine ⟨cur, h.set cur hi hlog hd.tickets (fun j t' r _ hx _ hb => ⟨hx, hb.congr hholders⟩)
      (fun r hr => by rw [hk] at hr; cases hr) (fun x hx => ?_) hm (fun x hx => .inl hx)
      (fun t' hq' => absurd hq' (hnoq t'))⟩
    rw [hholder]
    exact h.held x hx

theorem knock_block {p : Policy} {q : Request} {c : Call} {x : Slip}
    (h : Tier spare w cur) (hw : th.Waits) (hi : w.threads[i]? = some th)
    (hc : th.strand.call? = some c) (hb : c.tier? = some spare) (hq : q.slot.key = key)
    (ha : (Phase.door spare).Asks p q c) (hk : th.keeps? (own i w.log) = none)
    (hs : w.state.Serves spare key th.pending.join d c (.blocked x)) :
    Tier spare ⟨d, w.threads.set i { th with pending := some x }, w.log⟩ cur ∧
      ∃ t owner deadline, x = some (t, .turn (latchName spare key) owner deadline) ∧
        c.wants? = some owner := by
  obtain ⟨t, hd, hknock, hm, hcur, hothers⟩ := h.knocks hw hi hc hb hq ha hs
  cases hknock with
  | waits owner deadline ho hholder hholders =>
    refine ⟨h.set cur hi (fun _ _ => rfl) hd.tickets
      (fun j t' r _ hx _ hb => ⟨hx, hb.congr hholders⟩) (fun r hr => ?_) (fun x hx => ?_) hm
      (fun x hx => .inl hx) (fun t' hq' => ?_), t, owner, deadline, rfl, ho⟩
    · have hr' : th.keeps? (own i w.log) = some r := hr
      rw [hk] at hr'
      cases hr'
    · rw [hholder]
      exact h.held x hx
    · obtain ⟨owner', deadline', hq'⟩ := hq'
      cases hq'
      exact ⟨hd.bound, hcur, hothers⟩

/-! ### Letting go -/

/-- The thread that has the lock lets go of it. -/
theorem depart {th' : Thread (.tiers key)} {log : List (Nat × Asked collaborators)}
    (h : Tier spare w (some (i, t))) (hi : w.threads[i]? = some th)
    (hlog : ∀ j, j ≠ i → own j log = own j w.log)
    (hl : d.store.latch (latchName spare key) =
      ((w.state.store.latch (latchName spare key)).leave t).1)
    (ht : d.tickets = w.state.tickets) (hk : th'.keeps? (own i log) = none)
    (hp : th'.pending = none) : Tier spare ⟨d, w.threads.set i th', log⟩ none := by
  refine h.set none hi hlog (Nat.le_of_eq ht.symm)
    (fun j t r hj hx => by cases hx; exact absurd rfl hj) (fun r hr => by rw [hk] at hr; cases hr)
    (fun x hx => by cases hx) (fun x hx => ?_) (fun x hx => by cases hx)
    (fun t' hq => absurd hq (Thread.not_queues (by rw [hp]; rfl)))
  rw [hl] at hx
  rw [ht]
  exact h.members x (Local.Latch.members_leave hx)

/-- A thread leaves the line of the lock. -/
theorem quit {th' : Thread (.tiers key)} (h : Tier spare w cur) (hi : w.threads[i]? = some th)
    (hq : th.Queues spare t)
    (hl : d.store.latch (latchName spare key) =
      ((w.state.store.latch (latchName spare key)).leave t).1)
    (hh : d.store.holders = w.state.store.holders) (ht : d.tickets = w.state.tickets)
    (hk : th'.keeps? (own i w.log) = none) (hp : th'.pending = none) :
    Tier spare ⟨d, w.threads.set i th', w.log⟩ cur := by
  refine h.set cur hi (fun _ _ => rfl) (Nat.le_of_eq ht.symm)
    (fun j t' r _ hx _ hb => ⟨hx, hb.congr hh⟩) (fun r hr => by rw [hk] at hr; cases hr)
    (fun x hx => ?_) (fun x hx => ?_) (fun x hx => .inl hx)
    (fun t' hq' => absurd hq' (Thread.not_queues (by rw [hp]; rfl)))
  · have hheld := h.held x hx
    have hne : (w.state.store.latch (latchName spare key)).holder? ≠ some t := by
      rw [hheld]
      exact fun he => (h.line i th t hi hq).2 x hx (Option.some.inj he)
    rw [hl, Local.Latch.holder?_leave hne]
    exact hheld
  · rw [hl] at hx
    rw [ht]
    exact h.members x (Local.Latch.members_leave hx)

/-- New threads come; if one of them is to release the lock, it has it now in its hands. -/
theorem spawn (h : Tier spare w cur) (hl : w.Led) (ks : List Task) (cur' : Option (Nat × Ticket))
    (new : ∀ (n : Nat) k r, ks[n]? = some k → k.keeps? [] = some r → r.tier? = some spare →
      ∃ t, cur' = some (w.threads.length + n, t) ∧ Backs key w.state.store t r)
    (old : ∀ (i : Nat) th r, w.threads[i]? = some th → th.keeps? (own i w.log) = some r →
      r.tier? = some spare → cur' = cur)
    (held : ∀ x, cur' = some x → ∃ y, cur = some y ∧ y.2 = x.2) :
    Tier spare { w with threads := w.threads ++ ks.map Thread.start } cur' := by
  have fresh {i : Nat} {th : Thread (.tiers key)} {t : Ticket}
      (hi : (w.threads ++ ks.map Thread.start)[i]? = some th) (hq : th.Queues spare t) :
      w.threads[i]? = some th := by
    rcases Crowd.getElem?_append_map hi with hi | ⟨-, k, rfl⟩
    · exact hi
    · exact absurd hq (Thread.not_queues rfl)
  refine ⟨fun i th r hi hk hr => ?_, fun x hx => ?_, h.members, fun i th t hi hq => ?_,
    fun i j th th' t t' hij hi hj hq hq' => h.apart i j th th' t t' hij (fresh hi hq) (fresh hj hq') hq hq'⟩
  · dsimp only at hi hk
    by_cases hlt : i < w.threads.length
    · rw [List.getElem?_append_left hlt] at hi
      rw [old i th r hi hk hr]
      exact h.alone i th r hi hk hr
    · rw [List.getElem?_append_right (Nat.le_of_not_lt hlt), List.getElem?_map] at hi
      obtain ⟨k, hn, rfl⟩ := Option.map_eq_some_iff.1 hi
      have hown : own i w.log = [] := by
        refine List.eq_nil_iff_forall_not_mem.2 fun e he => ?_
        exact hlt (hl.bound _ (mem_own.1 he))
      rw [hown] at hk
      have := new _ k r hn hk hr
      rwa [Nat.add_sub_cancel' (Nat.le_of_not_lt hlt)] at this
  · obtain ⟨y, hy, he⟩ := held x hx
    rw [← he]
    exact h.held y hy
  · obtain ⟨hb, hne⟩ := h.line i th t (fresh hi hq) hq
    refine ⟨hb, fun x hx => ?_⟩
    obtain ⟨y, hy, he⟩ := held x hx
    rw [← he]
    exact hne y hy

/-- The tasks of a dropped reservation that have nothing to do with the lock. -/
theorem unload (h : Tier spare w cur) (hl : w.Led) (rs : List Release)
    (hrs : ∀ r ∈ rs, r.tier? ≠ some spare) :
    Tier spare { w with threads := w.threads ++ rs.map fun r => .start (.release r) } cur := by
  have := h.spawn hl (rs.map .release) cur (fun n k r hn hk hr => ?_) (fun _ _ _ _ _ _ => rfl)
    fun x hx => ⟨x, hx, rfl⟩
  · rwa [List.map_map] at this
  · obtain ⟨r', hr', rfl⟩ := List.mem_map.1 (List.mem_of_getElem? hn)
    cases hk
    exact absurd hr (hrs _ hr')

/-- The last task that a dropped reservation leaves behind takes the lock over. -/
theorem inherit {rs : List Release} {r : Release} (h : Tier spare w (some (i, t))) (hl : w.Led)
    (hrs : ∀ r ∈ rs, r.tier? = none)
    (hi : ∀ th, w.threads[i]? = some th → th.keeps? (own i w.log) = none)
    (hb : Backs key w.state.store t r) :
    Tier spare { w with threads := w.threads ++ (rs ++ [r]).map fun r => .start (.release r) }
      (some (w.threads.length + rs.length, t)) := by
  have := h.spawn hl ((rs ++ [r]).map .release) (some (w.threads.length + rs.length, t))
    (fun n k r' hn hk hr' => ?_) (fun j th r' hj hk hr' => ?_) fun x hx => ?_
  · rwa [List.map_map] at this
  · rw [List.getElem?_map] at hn
    obtain ⟨r₁, hn₁, rfl⟩ := Option.map_eq_some_iff.1 hn
    cases hk
    by_cases hlt : n < rs.length
    · rw [List.getElem?_append_left hlt] at hn₁
      rw [hrs _ (List.mem_of_getElem? hn₁)] at hr'
      cases hr'
    · rw [List.getElem?_append_right (Nat.le_of_not_lt hlt), List.getElem?_singleton] at hn₁
      split at hn₁
      · cases hn₁
        obtain rfl : n = rs.length := by omega
        exact ⟨t, rfl, hb⟩
      · cases hn₁
  · obtain ⟨t', hc, -⟩ := h.alone j th r' hj hk hr'
    cases hc
    rw [hi th hj] at hk
    cases hk
  · cases hx
    exact ⟨_, rfl, rfl⟩

end Tier

end

end Admission

end Turnstile
