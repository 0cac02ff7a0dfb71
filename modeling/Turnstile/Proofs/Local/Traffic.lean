import Mathlib.Algebra.GroupWithZero.Nat
import Mathlib.Data.List.Induction
import Turnstile.Proofs.Local.Latches

/-!
# Traffic at a store

Any number of callers at one local store. A `Move` is whatever can happen next: an attempt begins,
one that waits looks again or is dropped, a lock is let go, permits are given back, the store is
swept, time passes. A run is any list of moves, so that a statement about `run` is one about every
order of looks, timeouts, drops and sweeps.

The log notes what callers see. `keeper` reads off it who was granted a latch and has not let it
go, `arrived` and `granted` who asked for a latch and who got it. That these say where the latch
stands is shown in `Turnstile.Proofs.Local.Queue`.
-/

namespace Turnstile.Local

namespace Traffic

inductive Move
  | begin (a : Attempt)
  /-- Another look at an attempt that waits, whether it was woken or not. -/
  | look (t : Ticket)
  /-- The caller of an attempt that waits is dropped. -/
  | drop (t : Ticket)
  | unlock (key : String) (owner : Ulid)
  /-- A named lock is released or dropped. -/
  | free (key : String) (t : Ticket)
  | giveBack (key : String)
  /-- A sweep for any instant. -/
  | sweep (time : Nat)
  | pass (millis : Nat)

inductive Entry
  | arrived (t : Ticket) (a : Attempt)
  | answered (t : Ticket) (a : Attempt) (o : Outcome)
  | dropped (t : Ticket)
  | unlocked (key : String) (owner : Ulid) (done : Bool)
  | freed (key : String) (t : Ticket)
  /-- A look at the pool of `key` for a pool of `capacity`, while `out` permits were out. -/
  | asked (key : String) (capacity out : Nat)

/-- Who holds a latch: the owner of a fair lock or nobody in particular, and the ticket. -/
abbrev Keeper := Option Ulid × Ticket

/-- The latch that an entry tells to be granted, and to whom. -/
def Entry.granted? : Entry → Option (String × Keeper)
  | answered t a (.ok (some _)) => a.turn?.map fun x => (x.1, x.2, t)
  | _ => none

/-- The latch that an entry tells to be let go. -/
def Entry.letsGo? : Entry → Option String
  | unlocked key _ true => some key
  | freed key _ => some (Store.lockName key)
  | _ => none

def Entry.arrived? : Entry → Option (String × Ticket)
  | arrived t a => a.turn?.map fun x => (x.1, t)
  | _ => none

def keep (name : String) (k : Option Keeper) (e : Entry) : Option Keeper :=
  match e.granted? with
  | some (n, h) => if n = name then some h else k
  | none => if e.letsGo? = some name then none else k

/-- Who was granted the latch and has not let it go. -/
def keeper (name : String) (log : List Entry) : Option Keeper := log.foldl (keep name) none

/-- The tickets that asked for the latch, in the order in which they came. -/
def arrived (name : String) (log : List Entry) : List Ticket :=
  log.filterMap fun e => e.arrived?.bind fun x => if x.1 = name then some x.2 else none

/-- The tickets that were granted the latch, in this order. -/
def granted (name : String) (log : List Entry) : List Ticket :=
  log.filterMap fun e => e.granted?.bind fun x => if x.1 = name then some x.2.2 else none

/-- The answers, in the order in which they were given. -/
def answersOf (log : List Entry) : List (Ticket × Outcome) :=
  log.filterMap fun e => match e with
    | .answered t _ o => some (t, o)
    | _ => none

end Traffic

/-- The permits that are out, unless they are forgotten at the next look. -/
def Pool.out (p : Pool) (now : Nat) : Nat := if p.isExpired now then 0 else p.outstanding.sum

def Store.out (s : Store) (key : String) (now : Nat) : Nat := s.ofPool key 0 fun p => p.out now

def Progress.answer? : Progress → Option Outcome
  | .done o => some o
  | .waiting _ => none

theorem Progress.answer?_eq_some {p : Progress} {o : Outcome} :
    p.answer? = some o ↔ p = .done o := by
  cases p <;> simp [answer?]

structure Traffic where
  store : Store
  now : Nat
  /-- The next ticket. -/
  tickets : Nat
  waiting : Table Ticket (Attempt × Waiting)
  /-- The tickets that were woken and have not looked since. -/
  woken : List Ticket
  log : List Traffic.Entry

namespace Traffic

def start (client : Ulid) : Traffic := ⟨.fresh client, 0, 0, .empty, [], []⟩

/-- What becomes of an attempt after a look. -/
def settle (s : Traffic) (t : Ticket) (a : Attempt) : Progress → Traffic
  | .done o => { s with waiting := s.waiting.erase t, log := s.log ++ [.answered t a o] }
  | .waiting w => { s with waiting := s.waiting.insert t (a, w) }

@[simp] theorem settle_store (s : Traffic) (t : Ticket) (a : Attempt) (p : Progress) :
    (s.settle t a p).store = s.store := by
  cases p <;> rfl

@[simp] theorem settle_tickets (s : Traffic) (t : Ticket) (a : Attempt) (p : Progress) :
    (s.settle t a p).tickets = s.tickets := by
  cases p <;> rfl

@[simp] theorem settle_now (s : Traffic) (t : Ticket) (a : Attempt) (p : Progress) :
    (s.settle t a p).now = s.now := by
  cases p <;> rfl

theorem settle_log (s : Traffic) (t : Ticket) (a : Attempt) (p : Progress) :
    (s.settle t a p).log = s.log ++ (p.answer?.map (Entry.answered t a)).toList := by
  cases p with
  | done o => rfl
  | waiting w => exact (List.append_nil _).symm

theorem settle_get?_self {s : Traffic} {t : Ticket} {a a' : Attempt} {p : Progress} {w : Waiting}
    (h : (s.settle t a p).waiting.get? t = some (a', w)) : a' = a ∧ p = .waiting w := by
  cases p with
  | done o =>
    change (s.waiting.erase t).get? t = _ at h
    rw [Table.get?_erase, if_pos rfl] at h
    cases h
  | waiting w' =>
    change (s.waiting.insert t (a, w')).get? t = _ at h
    rw [Table.get?_insert, if_pos rfl] at h
    cases h
    exact ⟨rfl, rfl⟩

theorem settle_get?_of_ne {s : Traffic} {t u : Ticket} (hu : u ≠ t) (a : Attempt) (p : Progress) :
    (s.settle t a p).waiting.get? u = s.waiting.get? u := by
  cases p with
  | done o =>
    show (s.waiting.erase t).get? u = _
    rw [Table.get?_erase, if_neg hu]
  | waiting w =>
    show (s.waiting.insert t (a, w)).get? u = _
    rw [Table.get?_insert, if_neg hu]

theorem settle_get? {s : Traffic} {t u : Ticket} {a a' : Attempt} {p : Progress} {w : Waiting}
    (h : (s.settle t a p).waiting.get? u = some (a', w)) :
    s.waiting.get? u = some (a', w) ∨ u = t ∧ a' = a ∧ p = .waiting w := by
  by_cases hu : u = t
  · subst hu
    exact .inr ⟨rfl, settle_get?_self h⟩
  · exact .inl (settle_get?_of_ne hu a p ▸ h)

/-- The look at a pool with which an attempt begins, if its input is good. -/
def firstAsk (s : Traffic) : Attempt → List Entry
  | .permits key plan demand =>
    match (Attempt.permits key plan demand).check with
    | .ok () => [.asked key plan.capacity.toNat (s.store.out key s.now)]
    | .error _ => []
  | _ => []

/-- The look at a pool of an attempt that was called. -/
def nextAsk (s : Traffic) (t : Ticket) : Waiting → List Entry
  | .permits key plan _ _ =>
    match s.store.pools.get? key with
    | some p =>
      if t ∈ p.called then [.asked key plan.capacity.toNat (s.store.out key s.now)] else []
    | none => []
  | _ => []

/-- An attempt has come and left the store as `st`. -/
def arrive (s : Traffic) (a : Attempt) (st : Store) : Traffic :=
  { s with
    store := st
    tickets := s.tickets + 1
    log := s.log ++ Entry.arrived s.tickets a :: s.firstAsk a }

def begin (s : Traffic) (a : Attempt) : Traffic :=
  let r := s.store.begin s.tickets s.now a
  (s.arrive a r.1).settle s.tickets a r.2

/-- An attempt has looked again and left the store as `st`, waking `woken`. -/
def visit (s : Traffic) (t : Ticket) (w : Waiting) (st : Store) (woken : List Ticket) : Traffic :=
  { s with
    store := st
    woken := s.woken.filter (· ≠ t) ++ woken
    log := s.log ++ s.nextAsk t w }

def look (s : Traffic) (t : Ticket) (a : Attempt) (w : Waiting) : Traffic :=
  let r := s.store.resume t s.now w
  (s.visit t w r.1 r.2.1).settle t a r.2.2

def drop (s : Traffic) (t : Ticket) (w : Waiting) : Traffic :=
  let r := s.store.cancel t w
  { s with
    store := r.1
    waiting := s.waiting.erase t
    woken := s.woken.filter (· ≠ t) ++ r.2
    log := s.log ++ [.dropped t] }

def unlock (s : Traffic) (key : String) (owner : Ulid) : Traffic :=
  let r := s.store.unlock key owner
  { s with
    store := r.1
    woken := s.woken ++ r.2.2
    log := s.log ++ [.unlocked key owner r.2.1] }

/-- Only who was granted a named lock can let it go, and only once. -/
def free (s : Traffic) (key : String) (t : Ticket) : Traffic :=
  if keeper (Store.lockName key) s.log = some (none, t) then
    let r := s.store.leaveLatch (Store.lockName key) t
    { s with store := r.1, woken := s.woken ++ r.2, log := s.log ++ [.freed key t] }
  else s

def giveBack (s : Traffic) (key : String) : Traffic :=
  let r := s.store.giveBack key s.now
  { s with store := r.1, woken := s.woken ++ r.2 }

/-- What a move notes in the end. -/
def note (s : Traffic) : Move → Option Entry
  | .begin a => (s.store.begin s.tickets s.now a).2.answer?.map (.answered s.tickets a)
  | .look t =>
    match s.waiting.get? t with
    | some (a, w) => (s.store.resume t s.now w).2.2.answer?.map (.answered t a)
    | none => none
  | .drop t => (s.waiting.get? t).map fun _ => .dropped t
  | .unlock key owner => some (.unlocked key owner (s.store.unlock key owner).2.1)
  | .free key t =>
    if keeper (Store.lockName key) s.log = some (none, t) then some (.freed key t) else none
  | _ => none

def step (s : Traffic) : Move → Traffic
  | .begin a => s.begin a
  | .look t =>
    match s.waiting.get? t with
    | some (a, w) => s.look t a w
    | none => s
  | .drop t =>
    match s.waiting.get? t with
    | some (_, w) => s.drop t w
    | none => s
  | .unlock key owner => s.unlock key owner
  | .free key t => s.free key t
  | .giveBack key => s.giveBack key
  | .sweep time => { s with store := s.store.sweep time }
  | .pass millis => { s with now := s.now + Clock.ofMillis millis }

/-- Nothing but the time is another when time passes. The new time is left open, since it is slow to
unfold a product with so large a factor. -/
theorem step_pass (s : Traffic) (millis : Nat) : ∃ now, s.now ≤ now ∧
    ∀ s' : Traffic, s'.now = s.now → s'.step (.pass millis) = { s' with now } :=
  ⟨s.now + Clock.ofMillis millis, Nat.le_add_right .., fun _ h => h ▸ rfl⟩

def run (s : Traffic) (moves : List Move) : Traffic := moves.foldl step s

theorem run_concat (s : Traffic) (moves : List Move) (m : Move) :
    s.run (moves ++ [m]) = (s.run moves).step m := by
  simp [run]

/-- What every step keeps holds after every run. -/
theorem run_induction {P : Traffic → Prop} {s : Traffic} (h₀ : P s)
    (hs : ∀ s m, P s → P (s.step m)) (moves : List Move) : P (s.run moves) := by
  induction moves using List.reverseRecOn with
  | nil => exact h₀
  | append_singleton moves m ih =>
    rw [run_concat]
    exact hs _ _ ih

/-! ## The log grows at its end -/

variable {name : String} {log : List Entry} {e : Entry}

theorem keeper_concat : keeper name (log ++ [e]) = keep name (keeper name log) e := by
  simp [keeper]

theorem answersOf_append (log es : List Entry) :
    answersOf (log ++ es) = answersOf log ++ answersOf es :=
  List.filterMap_append

/-- The entry tells nothing of the latch. -/
structure Entry.IsAside (name : String) (e : Entry) : Prop where
  granted : ∀ h, e.granted? ≠ some (name, h)
  letsGo : e.letsGo? ≠ some name

theorem keep_of_isAside (h : e.IsAside name) (k : Option Keeper) : keep name k e = k := by
  unfold keep
  split
  · rename_i n x hg
    have hn : n ≠ name := by
      rintro rfl
      exact h.granted x hg
    simp [hn]
  · simp [h.letsGo]

theorem keep_of_granted {x : Keeper} (h : e.granted? = some (name, x)) (k : Option Keeper) :
    keep name k e = some x := by
  simp [keep, h]

theorem keep_of_letsGo (h : e.letsGo? = some name) (k : Option Keeper) : keep name k e = none := by
  have hg : e.granted? = none := by
    cases e with
    | answered => cases h
    | _ => rfl
  simp [keep, hg, h]

end Traffic

end Turnstile.Local
