import Mathlib.Logic.Function.Basic
import Turnstile.Proofs.Local.Revival

/-!
# Looks and releases, part by part

On several threads a look at a pool and a release are not one step each. A caller enters the line
first and looks then; a release makes its permits available first and calls the line then. A `Weave`
is one pool while such parts of any calls follow each other in any order.

A caller that sleeps and was not called has looked after every release that has called the line,
wherever the other releases are (`Weave.Heard.step`). It is the order of the two parts that makes it
so: who looks stands in the line already, and a release that comes too late for the look calls it.
With each look and each release in one piece this is the store (`look_parts`, `giveBack_parts`).
-/

namespace Turnstile.Local

namespace Pool

variable {p : Pool} {plan : PoolPlan} {n now : Nat} {t u : Ticket}

/-- The first part of a release: the latest acquisition is available again. -/
def refund (p : Pool) (now : Nat) : Pool :=
  match p.outstanding with
  | [] => p
  | permits :: rest =>
    { p with
      available := min p.capacity (p.available + permits)
      outstanding := rest
      lastTouched := now }

/-- The second part of a release: those in the line are called. -/
def callLine (p : Pool) : Pool := { p with line := [], called := p.called ++ p.line }

theorem giveBack_parts (ho : p.outstanding ≠ []) :
    p.giveBack now = ((p.refund now).callLine, p.line) := by
  unfold giveBack refund callLine
  cases hp : p.outstanding with
  | nil => exact absurd hp ho
  | cons n rest => rfl

theorem callers_refund : (p.refund now).callers = p.callers := by
  unfold refund
  split <;> rfl

theorem called_refund : (p.refund now).called = p.called := by
  unfold refund
  split <;> rfl

theorem callers_callLine : p.callLine.callers = p.callers := List.append_nil _

theorem called_reshape : (p.reshape plan now).called = p.called := by
  unfold reshape
  dsimp only
  split <;> rfl

theorem called_take : (p.take plan n now).1.called = p.called := by
  unfold take
  dsimp only
  split
  · exact called_reshape
  · split
    · exact called_reshape
    · exact called_reshape

theorem mem_callers_leave (hu : u ≠ t) : u ∈ (p.leave t).callers ↔ u ∈ p.callers := by
  simp only [callers, leave, List.mem_append, List.mem_erase_of_ne hu]

theorem mem_called_leave (hu : u ≠ t) : u ∈ (p.leave t).called ↔ u ∈ p.called :=
  List.mem_erase_of_ne hu

theorem reshape_join : (p.join t).reshape plan now = (p.reshape plan now).join t := by
  unfold reshape
  dsimp only
  by_cases he : p.isExpired now = true
  · rw [if_pos he, if_pos (show (p.join t).isExpired now = true from he)]
    rfl
  · rw [if_neg he, if_neg (show ¬(p.join t).isExpired now = true from he)]
    rfl

/-- It makes no difference to a look that its caller stands in the line. -/
theorem take_join :
    (p.join t).take plan n now = ((p.take plan n now).1.join t, (p.take plan n now).2) := by
  unfold take
  dsimp only
  rw [reshape_join]
  by_cases hcap : (p.reshape plan now).capacity < n
  · rw [if_pos hcap]
    exact if_pos hcap
  · rw [if_neg hcap, if_neg (show ¬((p.reshape plan now).join t).capacity < n from hcap)]
    by_cases hn : n ≤ (p.reshape plan now).available
    · rw [if_pos hn]
      exact if_pos hn
    · rw [if_neg hn]
      exact if_neg hn

theorem leave_join (ht : t ∉ p.callers) : (p.join t).leave t = p := by
  obtain ⟨hcalled, hline⟩ : t ∉ p.called ∧ t ∉ p.line := by
    simpa [callers] using ht
  have hl : (p.line ++ [t]).erase t = p.line := by
    rw [List.erase_append_right _ hline]
    simp
  unfold leave join
  dsimp only
  rw [hl, List.erase_of_not_mem hcalled]

end Pool

/-- How far a call for permits has come. -/
inductive Stand
  /-- It has not entered the line. -/
  | outside
  /-- It has entered the line and is about to look. -/
  | entered
  /-- Its last look was refused for now. -/
  | asleep
deriving DecidableEq

structure PoolCall where
  plan : PoolPlan
  permits : Nat
  stand : Stand
  /-- How many releases had made their permits available at the last look. -/
  seen : Nat

structure Weave where
  pool : Pool
  now : Nat
  calls : Ticket → Option PoolCall
  /-- How many releases have made their permits available. -/
  refunds : Nat
  /-- How many of them have called the line as well. -/
  announced : Nat

namespace Weave

inductive Part
  /-- A call gets hold of the pool. -/
  | arrive (t : Ticket) (plan : PoolPlan) (permits : Nat)
  /-- A call that is new or was called enters the line. -/
  | enter (t : Ticket)
  | look (t : Ticket)
  /-- The time of a call that was not called is over. -/
  | giveUp (t : Ticket)
  /-- The caller is dropped, wherever it is. -/
  | drop (t : Ticket)
  | refund
  | announce
  | pass (nanos : Nat)

def put (s : Weave) (t : Ticket) (c : PoolCall) : Weave :=
  { s with calls := Function.update s.calls t (some c) }

def quit (s : Weave) (t : Ticket) : Weave :=
  { s with pool := s.pool.leave t, calls := Function.update s.calls t none }

/-- A call may enter the line: it has not yet, or it was called. -/
def mayEnter (s : Weave) (t : Ticket) (c : PoolCall) : Bool :=
  c.stand = .outside || (c.stand = .asleep && t ∈ s.pool.called)

def enter (s : Weave) (t : Ticket) (c : PoolCall) : Weave :=
  { s with pool := (s.pool.leave t).join t }.put t { c with stand := .entered }

def look (s : Weave) (t : Ticket) (c : PoolCall) : Weave :=
  match s.pool.take c.plan c.permits s.now with
  | (p, .short) => { s with pool := p }.put t { c with stand := .asleep, seen := s.refunds }
  | (p, _) => { s with pool := p }.quit t

def step (s : Weave) : Part → Weave
  | .arrive t plan permits =>
    match s.calls t with
    | some _ => s
    | none => s.put t ⟨plan, permits, .outside, 0⟩
  | .enter t =>
    match s.calls t with
    | some c => if s.mayEnter t c then s.enter t c else s
    | none => s
  | .look t =>
    match s.calls t with
    | some c => if c.stand = .entered then s.look t c else s
    | none => s
  | .giveUp t =>
    match s.calls t with
    | some c => if c.stand = .asleep ∧ t ∉ s.pool.called then s.quit t else s
    | none => s
  | .drop t => if (s.calls t).isSome then s.quit t else s
  | .refund =>
    if s.pool.outstanding = [] then s
    else { s with pool := s.pool.refund s.now, refunds := s.refunds + 1 }
  | .announce =>
    if s.announced < s.refunds then
      { s with pool := s.pool.callLine, announced := s.announced + 1 }
    else s
  | .pass nanos => { s with now := s.now + nanos }

def run (s : Weave) (parts : List Part) : Weave := parts.foldl step s

variable {s : Weave} {t u : Ticket} {c : PoolCall}

theorem calls_put_self : (s.put t c).calls t = some c := Function.update_self ..

theorem calls_put_of_ne (hu : u ≠ t) : (s.put t c).calls u = s.calls u := Function.update_of_ne hu ..

theorem calls_quit_self : (s.quit t).calls t = none := Function.update_self ..

theorem calls_quit_of_ne (hu : u ≠ t) : (s.quit t).calls u = s.calls u := Function.update_of_ne hu ..

/-- What holds of a pool between any two parts. -/
structure Heard (s : Weave) : Prop where
  /-- Who has entered the line is a caller of the pool. -/
  callers : ∀ t c, s.calls t = some c → c.stand ≠ .outside → t ∈ s.pool.callers
  /-- Who sleeps and was not called has looked after every release that has called the line. -/
  looked : ∀ t c, s.calls t = some c → c.stand = .asleep → t ∉ s.pool.called → s.announced ≤ c.seen
  /-- No call has seen more releases than there were. -/
  seen : ∀ t c, s.calls t = some c → c.seen ≤ s.refunds
  announced : s.announced ≤ s.refunds

namespace Heard

/-- While no release is between its two parts, the last look came after the last release. -/
theorem seen_eq (h : s.Heard) (hs : s.announced = s.refunds) (hc : s.calls t = some c)
    (hstand : c.stand = .asleep) (ht : t ∉ s.pool.called) : c.seen = s.refunds :=
  Nat.le_antisymm (h.seen t c hc) (hs ▸ h.looked t c hc hstand ht)

/-- A part that changes one call and leaves the others on the lists of the pool. -/
theorem change (h : s.Heard) {s' : Weave} (hcalls : ∀ u, u ≠ t → s'.calls u = s.calls u)
    (hcallers : ∀ u, u ≠ t → u ∈ s.pool.callers → u ∈ s'.pool.callers)
    (hcalled : ∀ u, u ≠ t → u ∈ s.pool.called → u ∈ s'.pool.called)
    (hr : s'.refunds = s.refunds) (ha : s'.announced = s.announced)
    (hself : ∀ c, s'.calls t = some c → (c.stand ≠ .outside → t ∈ s'.pool.callers) ∧
      (c.stand = .asleep → t ∉ s'.pool.called → s.announced ≤ c.seen) ∧ c.seen ≤ s.refunds) :
    s'.Heard where
  callers u c hc hstand := by
    by_cases hu : u = t
    · subst hu
      exact (hself c hc).1 hstand
    · exact hcallers u hu (h.callers u c (hcalls u hu ▸ hc) hstand)
  looked u c hc hstand hnot := by
    rw [ha]
    by_cases hu : u = t
    · subst hu
      exact (hself c hc).2.1 hstand hnot
    · exact h.looked u c (hcalls u hu ▸ hc) hstand fun hm => hnot (hcalled u hu hm)
  seen u c hc := by
    rw [hr]
    by_cases hu : u = t
    · subst hu
      exact (hself c hc).2.2
    · exact h.seen u c (hcalls u hu ▸ hc)
  announced := by
    rw [hr, ha]
    exact h.announced

theorem quit (h : s.Heard) (t : Ticket) : (s.quit t).Heard := by
  refine h.change (fun u hu => calls_quit_of_ne hu)
    (fun u hu hm => (Pool.mem_callers_leave hu).2 hm)
    (fun u hu hm => (Pool.mem_called_leave hu).2 hm) rfl rfl fun c hc => ?_
  cases calls_quit_self.symm.trans hc

/-- One call goes on, in or out of the line as it was. -/
theorem put (h : s.Heard) (hcallers : c.stand ≠ .outside → t ∈ s.pool.callers)
    (hlooked : c.stand = .asleep → s.announced ≤ c.seen) (hseen : c.seen ≤ s.refunds) :
    (s.put t c).Heard := by
  refine h.change (fun u hu => calls_put_of_ne hu) (fun _ _ hm => hm) (fun _ _ hm => hm) rfl rfl
    fun c' hc => ?_
  cases calls_put_self.symm.trans hc
  exact ⟨hcallers, fun hs _ => hlooked hs, hseen⟩

theorem enter (h : s.Heard) (hc : s.calls t = some c) : (s.enter t c).Heard := by
  have hcallers : ∀ u, u ∈ ((s.pool.leave t).join t).callers ↔
      u ∈ (s.pool.leave t).callers ∨ u = t := by
    intro u
    rw [Pool.callers_join, List.mem_append, List.mem_singleton]
  refine h.change (fun u hu => calls_put_of_ne hu)
    (fun u hu hm => (hcallers u).2 (.inl ((Pool.mem_callers_leave hu).2 hm)))
    (fun u hu hm => (Pool.mem_called_leave hu).2 hm) rfl rfl fun c' hc' => ?_
  cases calls_put_self.symm.trans hc'
  exact ⟨fun _ => (hcallers t).2 (.inr rfl), nofun, h.seen t c hc⟩

/-- Who looks stands in the line, and every release so far has made its permits available. -/
theorem look (h : s.Heard) (hc : s.calls t = some c) (hstand : c.stand = .entered) :
    (s.look t c).Heard := by
  obtain ⟨p, l, htake⟩ : ∃ p l, s.pool.take c.plan c.permits s.now = (p, l) := ⟨_, _, rfl⟩
  have hcallers : p.callers = s.pool.callers := by
    have hp := @Pool.callers_take s.pool c.plan c.permits s.now
    rwa [htake] at hp
  have hcalled : p.called = s.pool.called := by
    have hp := @Pool.called_take s.pool c.plan c.permits s.now
    rwa [htake] at hp
  have hmem : t ∈ p.callers := hcallers ▸ h.callers t c hc (by rw [hstand]; exact nofun)
  have hp : ({ s with pool := p } : Weave).Heard := by
    refine ⟨?callers, ?looked, h.seen, h.announced⟩
    case callers => exact fun u c' hc' hne => hcallers ▸ h.callers u c' hc' hne
    case looked => exact fun u c' hc' hs hu => h.looked u c' hc' hs (hcalled ▸ hu)
  unfold Weave.look
  rw [htake]
  cases l with
  | granted => exact hp.quit t
  | impossible => exact hp.quit t
  | short => exact hp.put (fun _ => hmem) (fun _ => h.announced) (Nat.le_refl _)

theorem refund (h : s.Heard) :
    ({ s with pool := s.pool.refund s.now, refunds := s.refunds + 1 } : Weave).Heard := by
  refine ⟨?callers, ?looked, ?seen, ?announced⟩
  case callers => exact fun t c hc hne => Pool.callers_refund.symm ▸ h.callers t c hc hne
  case looked =>
    exact fun t c hc hs ht => h.looked t c hc hs fun hm => ht (Pool.called_refund.symm ▸ hm)
  case seen => exact fun t c hc => Nat.le_succ_of_le (h.seen t c hc)
  case announced => exact Nat.le_succ_of_le h.announced

/-- Nobody who has entered the line is left uncalled. -/
theorem announce (h : s.Heard) (hlt : s.announced < s.refunds) :
    ({ s with pool := s.pool.callLine, announced := s.announced + 1 } : Weave).Heard := by
  refine ⟨?callers, ?looked, h.seen, hlt⟩
  case callers => exact fun t c hc hne => Pool.callers_callLine.symm ▸ h.callers t c hc hne
  case looked => exact fun t c hc hs ht => absurd (h.callers t c hc (by rw [hs]; exact nofun)) ht

theorem step (h : s.Heard) (part : Part) : (s.step part).Heard := by
  cases part with
  | arrive t plan permits =>
    simp only [Weave.step]
    split
    · exact h
    · exact h.put (fun hne => absurd rfl hne) nofun (Nat.zero_le _)
  | enter t =>
    simp only [Weave.step]
    split
    · rename_i c hc
      split
      · exact h.enter hc
      · exact h
    · exact h
  | look t =>
    simp only [Weave.step]
    split
    · rename_i c hc
      split
      · rename_i hstand
        exact h.look hc hstand
      · exact h
    · exact h
  | giveUp t =>
    simp only [Weave.step]
    split
    · split
      · exact h.quit t
      · exact h
    · exact h
  | drop t =>
    simp only [Weave.step]
    split
    · exact h.quit t
    · exact h
  | refund =>
    simp only [Weave.step]
    split
    · exact h
    · exact h.refund
  | announce =>
    simp only [Weave.step]
    split
    · rename_i hlt
      exact h.announce hlt
    · exact h
  | pass nanos => exact ⟨h.callers, h.looked, h.seen, h.announced⟩

theorem run (h : s.Heard) (parts : List Part) : (s.run parts).Heard := by
  induction parts generalizing s with
  | nil => exact h
  | cons part parts ih => exact ih (h.step part)

end Heard

/-- Who enters the line and looks at once does what a look at the pool of the store does. -/
theorem look_parts (hc : s.calls t = some c) (hmay : s.mayEnter t c = true)
    (hn : s.pool.callers.Nodup) :
    (s.run [.enter t, .look t]).pool =
      match (s.pool.leave t).take c.plan c.permits s.now with
      | (p, .short) => p.join t
      | (p, _) => p := by
  have hnot : t ∉ (s.pool.leave t).callers := by
    rw [Pool.callers_leave hn]
    simp
  have henter : s.step (.enter t) = s.enter t c := by simp only [step, hc, hmay, if_true]
  have hlook : (s.enter t c).step (.look t) = (s.enter t c).look t { c with stand := .entered } := by
    have hself : (s.enter t c).calls t = some { c with stand := .entered } := calls_put_self
    simp only [step, hself, if_true]
  have hrun : s.run [.enter t, .look t] = (s.enter t c).look t { c with stand := .entered } := by
    rw [← hlook, ← henter]
    rfl
  obtain ⟨p, l, htake⟩ : ∃ p l, (s.pool.leave t).take c.plan c.permits s.now = (p, l) := ⟨_, _, rfl⟩
  have hleft : t ∉ p.callers := by
    have hp := @Pool.callers_take (s.pool.leave t) c.plan c.permits s.now
    rw [htake] at hp
    exact hp.symm ▸ hnot
  have hjoined : ((s.enter t c).pool.take c.plan c.permits s.now) = (p.join t, l) := by
    show ((s.pool.leave t).join t).take c.plan c.permits s.now = _
    rw [Pool.take_join, htake]
  rw [hrun, htake, Weave.look]
  dsimp only
  rw [show (s.enter t c).now = s.now from rfl, hjoined]
  cases l with
  | granted => exact Pool.leave_join hleft
  | impossible => exact Pool.leave_join hleft
  | short => rfl

end Weave

end Turnstile.Local
