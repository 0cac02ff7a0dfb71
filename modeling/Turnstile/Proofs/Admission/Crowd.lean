import Turnstile.Proofs.Admission.Course
import Turnstile.Schedule.Host

/-!
# Crowds

Any number of reservations at once, with the tasks that dropped ones leave behind. An `Office` says
how their calls may be answered and what else may happen in between; a `Step` of a `Crowd` is one
node of one thread, a look at a call that blocks, a thread that is dropped, or something that
happens in the office. Every order of such steps is a run, so that a statement over `Reach` is one
about every interleaving.

The log keeps all calls that were answered. `Reach.led` cuts it into the traces of the threads: a
thread is a strand of its task that was led here by its own calls.
-/

namespace Turnstile.Admission

/-- What a thread is there for. -/
inductive Task
  | reserve (p : Policy) (q : Request)
  | release (r : Release)

namespace Task

def Result : Task → Type
  | reserve _ _ => Except AdmissionError Reservation
  | release _ => Unit

def code : (k : Task) → Routine k.Result
  | reserve p q => p.reserve q
  | release r => r.program

end Task

/-- Those who answer the calls of a crowd. -/
structure Office where
  State : Type
  /-- What a call that blocks remembers. -/
  Pending : Type
  /-- One look at a call, the first one or a later one. -/
  Looks : State → (c : Call) → Option Pending → State → Look c.Answer Pending → Prop
  /-- A thread is dropped, and with it the call that it waits for. -/
  Drops : State → Option Pending → State → Prop
  /-- What happens besides. -/
  Stirs : State → State → Prop
  /-- The reservations that are made. -/
  Opens : Policy → Request → Prop

structure Thread (O : Office) where
  task : Task
  strand : Strand collaborators Release task.Result
  pending : Option O.Pending
  dropped : Bool

structure Crowd (O : Office) where
  state : O.State
  threads : List (Thread O)
  /-- The calls that were answered and the numbers of their threads, oldest first. -/
  log : List (Nat × Asked collaborators)

variable {O : Office}

namespace Thread

def start (k : Task) : Thread O := ⟨k, ⟨k.code, []⟩, none, false⟩

/-- What a reservation has returned. -/
def outcome? : Thread O → Option (Except AdmissionError Reservation)
  | ⟨.reserve _ _, strand, _, _⟩ => strand.result?
  | ⟨.release _, _, _, _⟩ => none

end Thread

/-- The part of a log that belongs to one thread. -/
def own (i : Nat) (log : List (Nat × Asked collaborators)) : History :=
  (log.filter fun e => e.1 = i).map (·.2)

namespace Crowd

def empty (σ : O.State) : Crowd O := ⟨σ, [], []⟩

/-- The smallest step of a crowd. -/
inductive Step : Crowd O → Crowd O → Prop
  | arrive (w : Crowd O) (p : Policy) (q : Request) : O.Opens p q →
    Step w { w with threads := w.threads ++ [.start (.reserve p q)] }
  /-- A node of a thread that makes no call. -/
  | silent (w : Crowd O) (i : Nat) (th : Thread O) (s : Strand collaborators Release th.task.Result) :
    w.threads[i]? = some th → th.dropped = false → th.strand.Step Release.program [] s →
    Step w { w with threads := w.threads.set i { th with strand := s } }
  | answer (w : Crowd O) (i : Nat) (th : Thread O) (c : Call) (a : c.Answer)
    (s : Strand collaborators Release th.task.Result) (σ : O.State) :
    w.threads[i]? = some th → th.dropped = false → th.strand.Step Release.program [⟨c, a⟩] s →
    O.Looks w.state c th.pending σ (.answered a) →
    Step w
      { state := σ
        threads := w.threads.set i { th with strand := s, pending := none }
        log := w.log ++ [(i, ⟨c, a⟩)] }
  | block (w : Crowd O) (i : Nat) (th : Thread O) (c : Call) (v : O.Pending) (σ : O.State) :
    w.threads[i]? = some th → th.dropped = false → th.strand.call? = some c →
    O.Looks w.state c th.pending σ (.blocked v) →
    Step w { w with state := σ, threads := w.threads.set i { th with pending := some v } }
  /-- A thread may be dropped wherever it waits; what it owes is released by threads of their own. -/
  | drop (w : Crowd O) (i : Nat) (th : Thread O) (c : Call) (σ : O.State) :
    w.threads[i]? = some th → th.dropped = false → th.strand.call? = some c →
    c.isAwaited = true → O.Drops w.state th.pending σ →
    Step w
      { w with
        state := σ
        threads := w.threads.set i { th with pending := none, dropped := true } ++
          th.strand.owed.map fun r => .start (.release r) }
  | stir (w : Crowd O) (σ : O.State) : O.Stirs w.state σ → Step w { w with state := σ }

/-- The crowds that can come about when the office starts in the state `σ`. -/
inductive Reach (σ : O.State) : Crowd O → Prop
  | start : Reach σ (.empty σ)
  | step {w w' : Crowd O} : Reach σ w → Step w w' → Reach σ w'

end Crowd

section

variable {i j : Nat} {e : Asked collaborators} {log log' : List (Nat × Asked collaborators)}
  {w w' : Crowd O} {th : Thread O} {σ : O.State}

@[simp] theorem own_nil : own i [] = [] := rfl

theorem own_snoc_self : own i (log ++ [(i, e)]) = own i log ++ [e] := by
  simp [own]

theorem own_snoc_of_ne (h : j ≠ i) : own i (log ++ [(j, e)]) = own i log := by
  simp [own, h]

theorem mem_own : e ∈ own i log ↔ (i, e) ∈ log := by
  simp [own]

namespace Crowd

/-- The calls of a thread led its task to where it is, and only threads that exist made calls. -/
structure Led (w : Crowd O) : Prop where
  leads : ∀ i th, w.threads[i]? = some th →
    Strand.Leads Release.program ⟨th.task.code, []⟩ (own i w.log) th.strand
  bound : ∀ e ∈ w.log, e.1 < w.threads.length

theorem getElem?_append_map {ks : List Task}
    (h : (w.threads ++ ks.map Thread.start)[i]? = some th) :
    w.threads[i]? = some th ∨ w.threads.length ≤ i ∧ ∃ k, th = .start k := by
  rw [List.getElem?_append] at h
  split at h
  · exact .inl h
  · rename_i hi
    rw [List.getElem?_map] at h
    obtain ⟨k, -, rfl⟩ := Option.map_eq_some_iff.1 h
    exact .inr ⟨Nat.le_of_not_lt hi, k, rfl⟩

theorem Led.append (h : Led w) (ks : List Task) :
    Led { w with threads := w.threads ++ ks.map Thread.start } where
  leads i th hi := by
    rcases getElem?_append_map hi with hi | ⟨hl, k, rfl⟩
    · exact h.leads i th hi
    · have hn : own i w.log = [] := by
        refine List.eq_nil_iff_forall_not_mem.2 fun e he => ?_
        exact absurd (h.bound _ (mem_own.1 he)) (Nat.not_lt.2 hl)
      show Strand.Leads _ _ (own i w.log) _
      rw [hn]
      exact .here
  bound e he := by
    have := h.bound e he
    rw [List.length_append]
    omega

theorem Led.set (h : Led w) (hi : w.threads[i]? = some th) (v : Option O.Pending) (b : Bool) :
    Led { w with threads := w.threads.set i { th with pending := v, dropped := b } } where
  leads j th' hj := by
    rcases getElem?_set_cases hj with ⟨rfl, rfl⟩ | ⟨-, hj⟩
    · exact h.leads j th hi
    · exact h.leads j th' hj
  bound e he := by
    rw [List.length_set]
    exact h.bound e he

theorem Led.office (h : Led w) (σ : O.State) : Led { w with state := σ } := ⟨h.leads, h.bound⟩

theorem Led.step (h : Led w) (hs : Step w w') : Led w' := by
  cases hs with
  | arrive p q _ => exact h.append [.reserve p q]
  | silent i th s hi _ hs =>
    refine ⟨fun j th' hj => ?_, fun e he => ?_⟩
    · rcases getElem?_set_cases hj with ⟨rfl, rfl⟩ | ⟨-, hj⟩
      · simpa using (h.leads j th hi).step hs
      · exact h.leads j th' hj
    · rw [List.length_set]
      exact h.bound e he
  | answer i th c a s σ hi _ hs _ =>
    refine ⟨fun j th' hj => ?_, fun e he => ?_⟩
    · rcases getElem?_set_cases hj with ⟨rfl, rfl⟩ | ⟨hji, hj⟩
      · rw [own_snoc_self]
        exact (h.leads j th hi).step hs
      · rw [own_snoc_of_ne hji.symm]
        exact h.leads j th' hj
    · rw [List.length_set]
      rcases List.mem_append.1 he with he | he
      · exact h.bound e he
      · rw [List.mem_singleton.1 he]
        exact (List.getElem?_eq_some_iff.1 hi).1
  | block i th c v σ hi _ _ _ => exact (h.set hi (some v) th.dropped).office σ
  | drop i th c σ hi _ _ _ _ =>
    have := ((h.set hi none true).append (th.strand.owed.map .release)).office σ
    rw [List.map_map] at this
    exact this
  | stir σ _ => exact h.office σ

theorem Reach.led (h : Reach σ w) : Led w := by
  induction h with
  | start => exact ⟨fun i th hi => by simp [empty] at hi, fun e he => by simp [empty] at he⟩
  | step _ hs ih => exact ih.step hs

/-- The reservations of a crowd were opened by its office. -/
def Opened (w : Crowd O) : Prop := ∀ th ∈ w.threads, ∀ p q, th.task = .reserve p q → O.Opens p q

theorem Opened.append (h : Opened w) (rs : List Release) :
    Opened { w with threads := w.threads ++ rs.map fun r => .start (.release r) } := by
  intro th ht p q hk
  rcases List.mem_append.1 ht with ht | ht
  · exact h th ht p q hk
  · obtain ⟨r, -, rfl⟩ := List.mem_map.1 ht
    cases hk

theorem Opened.set {i : Nat} (h : Opened w) (hi : w.threads[i]? = some th) (th' : Thread O)
    (hk : th'.task = th.task) (σ : O.State) (log : List (Nat × Asked collaborators)) :
    Opened ⟨σ, w.threads.set i th', log⟩ := by
  intro th₀ ht p q hp
  rcases List.mem_or_eq_of_mem_set ht with ht | rfl
  · exact h th₀ ht p q hp
  · exact h th (List.mem_of_getElem? hi) p q (hk ▸ hp)

theorem Opened.step (h : Opened w) (hs : Step w w') : Opened w' := by
  cases hs with
  | arrive p q ho =>
    intro th ht p' q' hk
    rcases List.mem_append.1 ht with ht | ht
    · exact h th ht p' q' hk
    · rw [List.mem_singleton.1 ht] at hk
      cases hk
      exact ho
  | silent i th s hi _ _ => exact h.set hi { th with strand := s } rfl _ _
  | answer i th c a s σ hi _ _ _ => exact h.set hi { th with strand := s, pending := none } rfl _ _
  | block i th c v σ hi _ _ _ => exact h.set hi { th with pending := some v } rfl _ _
  | drop i th c σ hi _ _ _ _ =>
    exact (h.set hi { th with pending := none, dropped := true } rfl σ w.log).append _
  | stir σ _ => exact h

theorem Reach.opened (h : Reach σ w) : Opened w := by
  induction h with
  | start => exact List.forall_mem_nil _
  | step _ hs ih => exact ih.step hs

/-- The thread `i` has its turn: one node, where `f` looks at calls. -/
def turn (f : O.State → (c : Call) → Option O.Pending → Option (O.State × Look c.Answer O.Pending))
    (w : Crowd O) (i : Nat) : Crowd O :=
  match w.threads[i]? with
  | some ⟨task, ⟨.call c k, owed⟩, pending, false⟩ =>
    match f w.state c pending with
    | some (σ, .answered a) =>
      ⟨σ, w.threads.set i ⟨task, ⟨k a, owed⟩, none, false⟩, w.log ++ [(i, ⟨c, a⟩)]⟩
    | some (σ, .blocked v) =>
      ⟨σ, w.threads.set i ⟨task, ⟨.call c k, owed⟩, some v, false⟩, w.log⟩
    | none => w
  | some ⟨task, ⟨.owe r p, owed⟩, pending, false⟩ =>
    { w with threads := w.threads.set i ⟨task, ⟨p, r :: owed⟩, pending, false⟩ }
  | some ⟨task, ⟨.settle p, r :: owed⟩, pending, false⟩ =>
    { w with
      threads := w.threads.set i
        ⟨task, ⟨(Release.program r).bind fun _ => p, owed⟩, pending, false⟩ }
  | some ⟨task, ⟨.settle p, []⟩, pending, false⟩ =>
    { w with threads := w.threads.set i ⟨task, ⟨p, []⟩, pending, false⟩ }
  | _ => w

theorem Reach.turn
    {f : O.State → (c : Call) → Option O.Pending → Option (O.State × Look c.Answer O.Pending)}
    (h : Reach σ w) (i : Nat)
    (hf : ∀ th, w.threads[i]? = some th → ∀ c, th.strand.call? = some c → ∀ σ' l,
      f w.state c th.pending = some (σ', l) → O.Looks w.state c th.pending σ' l) :
    Reach σ (w.turn f i) := by
  unfold Crowd.turn
  split
  · rename_i task c k owed pending hi
    split
    · rename_i σ' a hl
      exact h.step (.answer w i _ c a _ σ' hi rfl (.call c k owed a) (hf _ hi c rfl _ _ hl))
    · rename_i σ' v hl
      exact h.step (.block w i _ c v σ' hi rfl rfl (hf _ hi c rfl _ _ hl))
    · exact h
  · rename_i hi
    exact h.step (.silent w i _ _ hi rfl (.owe ..))
  · rename_i hi
    exact h.step (.silent w i _ _ hi rfl (.settle ..))
  · rename_i hi
    exact h.step (.silent w i _ _ hi rfl (.clear ..))
  · exact h

theorem Reach.turns
    {f : O.State → (c : Call) → Option O.Pending → Option (O.State × Look c.Answer O.Pending)}
    (hf : ∀ σ c v σ' l, f σ c v = some (σ', l) → O.Looks σ c v σ' l) (h : Reach σ w)
    (is : List Nat) : Reach σ (is.foldl (Crowd.turn f) w) := by
  induction is generalizing w with
  | nil => exact h
  | cons i is ih => exact ih (h.turn i fun _ _ c _ σ' l => hf _ c _ σ' l)

end Crowd

end

end Turnstile.Admission
