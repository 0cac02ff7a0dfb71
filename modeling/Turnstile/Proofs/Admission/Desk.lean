import Turnstile.Proofs.Admission.Crowd
import Turnstile.Proofs.Admission.Ranking
import Turnstile.Proofs.Local.Store

/-!
# One desk for one slot

A local store and a ledger answer the calls of reservations that all want the slot with one key.
The lock is the fair lock of the store or, where that cannot be reached, a named lock of the store
as its substitute; it is the same for all of them. Nothing fails, but a call may be put off for any
time before it is looked at, and the store may be used for other keys in between.

`Office.shared` says so by the operations of the store. A call takes effect when it is answered,
and who made it may be as late as it likes to go on. What a look can do, given what the store knows
of the key, is worked out in the lemmas after it.
-/

namespace Turnstile

/-- The same look at a call that answers otherwise. -/
def Look.map {α β π : Type} (f : α → β) : Look α π → Look β π
  | answered a => answered (f a)
  | blocked w => blocked w

namespace Admission

/-- A ticket and what it waits for. A call that was put off has none yet. -/
abbrev Slip := Option (Ticket × Local.Waiting)

structure Desk where
  store : Local.Store
  ledger : Ledger
  now : Nat
  /-- The next ticket. -/
  tickets : Nat

/-- The latch of the lock that all reservations of one slot ask for. -/
def latchName (spare : Bool) (key : SlotKey) : String :=
  if spare then Local.Store.lockName key.text else key.text

namespace Desk

/-- What became of an attempt under the ticket `t`. -/
def remember (t : Ticket) : Local.Progress → Look Local.Outcome Slip
  | .done o => .answered o
  | .waiting w => .blocked (some (t, w))

/-- A look at an attempt, the first one with a new ticket. -/
def attempt (d : Desk) (a : Local.Attempt) : Slip → Desk × Look Local.Outcome Slip
  | some (t, w) =>
    let r := d.store.resume t d.now w
    ({ d with store := r.1 }, remember t r.2.2)
  | none =>
    let r := d.store.begin d.tickets d.now a
    ({ d with store := r.1, tickets := d.tickets + 1 }, remember d.tickets r.2)

/-- Others were at the desk, but not for this key. -/
structure Aside (spare : Bool) (key : SlotKey) (d d' : Desk) : Prop where
  store : d.store.Agrees (latchName spare key) key.text d'.store
  ledger : d'.ledger = d.ledger
  now : d.now ≤ d'.now
  tickets : d.tickets ≤ d'.tickets

/-- How a call is looked at; `spare` says that the fair lock cannot be reached. -/
def Serves (spare : Bool) (key : SlotKey) (d : Desk) (v : Slip) (d' : Desk) :
    (c : Call) → Look c.Answer Slip → Prop
  | .lock k owner wait, look =>
    if spare then d' = d ∧ ∃ text, look = .answered (.error (.unavailable text))
    else d' = (d.attempt (.lock k.text owner wait) v).1 ∧
      look = (d.attempt (.lock k.text owner wait) v).2.map (Except.map Option.isSome)
  | .spareLock k wait, look =>
    d' = (d.attempt (.named k.text wait) v).1 ∧
      look = (d.attempt (.named k.text wait) v).2.map (Except.map (Option.map (Held.mk k.text)))
  | .permits false k plan demand, look =>
    d' = (d.attempt (.permits k.text plan demand) v).1 ∧
      look = (d.attempt (.permits k.text plan demand) v).2.map (Except.map Option.isSome)
  | .isHeldBy k owner, look => d' = d ∧ look = .answered (.ok (d.store.isHeldBy k.text owner))
  | .unlock k owner, look =>
    d' = { d with store := (d.store.unlock k.text owner).1 } ∧
      look = .answered (.ok (d.store.unlock k.text owner).2.1)
  | .spareUnlock held, look =>
    d' = { d with store := (d.store.leaveLatch (Local.Store.lockName held.key) held.ticket).1 } ∧
      look = .answered (.ok ())
  | .giveBack false k, look =>
    d' = { d with store := (d.store.giveBack k.text d.now).1 } ∧ look = .answered (.ok ())
  | .query slot, look => d' = d ∧ look = .answered (.ok (d.ledger.query slot))
  | .create entry, look =>
    d' = { d with ledger := (d.ledger.create entry).1 } ∧ look = .answered (d.ledger.create entry).2
  | _, look => Aside spare key d d' ∧ ∃ a, look = .answered a

end Desk

/-- Uncancelled reservations of the slots with one key, over one store and one ledger. -/
abbrev Office.shared (spare : Bool) (key : SlotKey) : Office where
  State := Desk
  Pending := Slip
  Looks d c v d' look :=
    d.Serves spare key v.join d' c look ∨
      c.isAwaited = true ∧ v.join = none ∧ d' = d ∧ look = .blocked none
  Drops _ _ _ := False
  Stirs := Desk.Aside spare key
  Opens _ q := q.slot.key = key

/-! ## Asking for the lock -/

/-- In whose name a call asks for the lock, if it does. -/
def Call.wants? : Call → Option (Option Ulid)
  | lock _ owner _ => some (some owner)
  | spareLock _ _ => some none
  | _ => none

/-- The lock was granted. -/
def Call.locks : (c : Call) → c.Answer → Bool
  | lock _ _ _, .ok granted => granted
  | spareLock _ _, .ok held => held.isSome
  | _, _ => false

/-- The lock as it is granted under the ticket `t`. -/
def Bears (spare : Bool) (key : SlotKey) (s : Local.Store) (t : Ticket) : Hold → Prop
  | .fair owner => spare = false ∧ s.holders.get? key.text = some (owner, t)
  | .spare held => spare = true ∧ held = ⟨key.text, t⟩

namespace Desk

variable {spare : Bool} {key : SlotKey} {d d' : Desk} {v : Slip} {name : String}
  {owner : Option Ulid} {a : Local.Attempt}

/-- The ticket `t` is the one on the slip or a new one, and no other is drawn. -/
structure Draws (d : Desk) (v : Slip) (t : Ticket) (d' : Desk) : Prop where
  ticket : v.map (·.1) = some t ∨ v = none ∧ t = d.tickets
  bound : t < d'.tickets
  tickets : d.tickets ≤ d'.tickets
  ledger : d'.ledger = d.ledger

theorem attempt_turn (ha : a.turn? = some (name, owner))
    (hm : ∀ t ∈ (d.store.latch name).members, t < d.tickets)
    (hv : ∀ x ∈ v, x.1 < d.tickets ∧ ∃ deadline, x.2 = .turn name owner deadline) :
    ∃ t p, (d.attempt a v).2 = remember t p ∧ d.Draws v t (d.attempt a v).1 ∧
      d.store.Look t name owner (d.attempt a v).1.store p := by
  rcases v with _ | ⟨t, w⟩
  · have ht : d.tickets ∉ (d.store.latch name).members := fun h => Nat.lt_irrefl _ (hm _ h)
    exact ⟨d.tickets, _, rfl, ⟨.inr ⟨rfl, rfl⟩, Nat.lt_succ_self _, Nat.le_succ _, rfl⟩,
      Local.Store.begin_look ha ht⟩
  · obtain ⟨ht, deadline, hw⟩ := hv _ rfl
    dsimp only at ht hw
    subst hw
    exact ⟨t, _, rfl, ⟨.inl rfl, ht, Nat.le_refl _, rfl⟩, Local.Store.resume_look deadline⟩

theorem attempt_done {st : Local.Store} {o : Local.Outcome}
    (h : d.store.begin d.tickets d.now a = (st, .done o)) :
    d.attempt a none = ({ d with store := st, tickets := d.tickets + 1 }, .answered o) := by
  unfold attempt
  dsimp only
  rw [h]
  rfl

/-- A look that finds bad input is the first one and the last. -/
theorem attempt_checked {e : GuardError} (h : a.check = .error e) :
    (d.attempt a none).2 = .answered (.error e) := by
  have hb : d.store.begin d.tickets d.now a = (d.store, .done (.error e)) := by
    unfold Local.Store.begin
    rw [h]
  rw [attempt_done hb]

end Desk

/-- The phase in which a reservation asks for the lock. -/
def Phase.door (spare : Bool) : Phase := if spare then lockLost else admitted

/-- All that a look at the call `c` for the lock can do, under the ticket `t`. -/
inductive Knock (spare : Bool) (key : SlotKey) (p : Policy) (q : Request) (s : Local.Store)
    (t : Ticket) (s' : Local.Store) : (c : Call) → Look c.Answer Slip → Prop
  | enters {c : Call} {a : c.Answer} (l : Hold) : c.locks a = true →
    (Phase.door spare).next p q c a = .locked l → Bears spare key s' t l →
    (s.latch (latchName spare key)).holder? = none ∨
      (s.latch (latchName spare key)).holder? = some t →
    (s'.latch (latchName spare key)).holder? = some t → Knock spare key p q s t s' c (.answered a)
  | isRefused {c : Call} {a : c.Answer} (e : AdmissionError) : c.locks a = false →
    (Phase.door spare).next p q c a = .ended (.error e) →
    (s'.latch (latchName spare key)).holder? = (s.latch (latchName spare key)).holder? →
    s'.holders = s.holders → Knock spare key p q s t s' c (.answered a)
  | waits {c : Call} (owner : Option Ulid) (deadline : Nat) : c.wants? = some owner →
    (s'.latch (latchName spare key)).holder? = (s.latch (latchName spare key)).holder? →
    s'.holders = s.holders →
    Knock spare key p q s t s' c
      (.blocked (some (t, .turn (latchName spare key) owner deadline)))

section

variable {spare : Bool} {key : SlotKey} {d d' : Desk} {v : Slip} {c : Call} {p : Policy}
  {q : Request}

theorem knock_fair {s s' : Local.Store} {t : Ticket} {u : Ulid} {wait : Duration}
    {g : Local.Progress} (h : s.Look t q.slot.key.text (some u) s' g) :
    Knock false q.slot.key p q s t s' (.lock q.slot.key u wait)
      ((Desk.remember t g).map (Except.map Option.isSome)) := by
  obtain ⟨h, -, -⟩ := h
  cases h with
  | granted hn hh hg =>
    refine .enters (.fair u) rfl rfl ⟨rfl, ?_⟩ hn hh
    rw [hg]
    exact (Table.get?_insert ..).trans (if_pos rfl)
  | @refused o ho hh hg =>
    rcases o with e | _ | x
    · refine .isRefused e.toAdmission rfl ?_ hh hg
      change e.isUnavailable = false at ho
      show Phase.ofLock p u (.error e) = _
      simp [Phase.ofLock, ho]
    · exact .isRefused .lockContention rfl rfl hh hg
    · cases ho
  | waits deadline hh hg => exact .waits (some u) deadline rfl hh hg

theorem knock_spare {s s' : Local.Store} {t : Ticket} {wait : Duration} {g : Local.Progress}
    (h : s.Look t (Local.Store.lockName q.slot.key.text) none s' g) :
    Knock true q.slot.key p q s t s' (.spareLock q.slot.key wait)
      ((Desk.remember t g).map (Except.map (Option.map (Held.mk q.slot.key.text)))) := by
  obtain ⟨h, -, -⟩ := h
  cases h with
  | granted hn hh hg => exact .enters (.spare ⟨q.slot.key.text, t⟩) rfl rfl ⟨rfl, rfl⟩ hn hh
  | @refused o ho hh hg =>
    rcases o with e | _ | x
    · exact .isRefused e.toAdmission rfl rfl hh hg
    · exact .isRefused .lockContention rfl rfl hh hg
    · cases ho
  | waits deadline hh hg => exact .waits none deadline rfl hh hg

/-- A look at the call for the lock of the tier. -/
theorem Desk.Serves.knock {look : Look c.Answer Slip} (hs : d.Serves spare q.slot.key v d' c look)
    (ha : (Phase.door spare).Asks p q c)
    (hm : ∀ t ∈ (d.store.latch (latchName spare q.slot.key)).members, t < d.tickets)
    (hv : ∀ x ∈ v, x.1 < d.tickets ∧ ∃ owner deadline, c.wants? = some owner ∧
      x.2 = .turn (latchName spare q.slot.key) owner deadline) :
    ∃ t, d.Draws v t d' ∧ Knock spare q.slot.key p q d.store t d'.store c look ∧
      d'.store.pools = d.store.pools ∧
      ∀ x ∈ (d'.store.latch (latchName spare q.slot.key)).members,
        x = t ∨ x ∈ (d.store.latch (latchName spare q.slot.key)).members := by
  cases spare with
  | false =>
    cases ha with
    | lock u =>
      obtain ⟨rfl, rfl⟩ := hs
      have hv' : ∀ x ∈ v, x.1 < d.tickets ∧ ∃ deadline,
          x.2 = .turn q.slot.key.text (some u) deadline := by
        intro x hx
        obtain ⟨hb, owner, deadline, ho, hw⟩ := hv x hx
        cases ho
        exact ⟨hb, deadline, hw⟩
      obtain ⟨t, g, he, hd, hl⟩ :=
        attempt_turn (a := .lock q.slot.key.text u p.settings.lockWait) rfl hm hv'
      rw [he]
      exact ⟨t, hd, knock_fair hl, hl.pools, hl.members⟩
  | true =>
    cases ha with
    | spareLock =>
      obtain ⟨rfl, rfl⟩ := hs
      have hv' : ∀ x ∈ v, x.1 < d.tickets ∧ ∃ deadline,
          x.2 = .turn (Local.Store.lockName q.slot.key.text) none deadline := by
        intro x hx
        obtain ⟨hb, owner, deadline, ho, hw⟩ := hv x hx
        cases ho
        exact ⟨hb, deadline, hw⟩
      obtain ⟨t, g, he, hd, hl⟩ :=
        attempt_turn (a := .named q.slot.key.text p.settings.spareLockWait) rfl hm hv'
      rw [he]
      exact ⟨t, hd, knock_spare hl, hl.pools, hl.members⟩

/-- Whoever waits for the lock or has it asked with a key that is good. -/
theorem Desk.Serves.checked {look : Look c.Answer Slip}
    (hs : d.Serves spare q.slot.key none d' c look) (ha : (Phase.door spare).Asks p q c) :
    Limits.checkKey q.slot.key.text = .ok () ∨ ∃ a, look = .answered a ∧ c.locks a = false := by
  cases hk : Limits.checkKey q.slot.key.text with
  | ok u => exact .inl rfl
  | error e =>
    right
    cases spare with
    | false =>
      cases ha with
      | lock u =>
        have hc : (Local.Attempt.lock q.slot.key.text u p.settings.lockWait).check = .error e := by
          rw [Local.Attempt.check, hk]
          rfl
        exact ⟨.error e, by rw [hs.2, attempt_checked hc]; rfl, rfl⟩
    | true =>
      cases ha with
      | spareLock =>
        have hc : (Local.Attempt.named q.slot.key.text p.settings.spareLockWait).check =
            .error e := by
          rw [Local.Attempt.check, hk]
          rfl
        exact ⟨.error e, by rw [hs.2, attempt_checked hc]; rfl, rfl⟩

end

end Admission

end Turnstile
