import Turnstile.Proofs.Remote.Lease
import Turnstile.Proofs.Remote.Polling
import Turnstile.Sim.Scenario

/-!
# Calls that have to do with permits

A call that takes permits at the coordination server polls until they are granted and then puts
them on the stack of their key; one that gives permits back takes the latest ones off the stack and
sends them. Whatever is answered, each operation is asked for in its `Phase`. `Errand.Course` says
what a call may have asked and been answered at any time, and `Errand.Gave` what one that gives
permits back has asked and been answered at its end.
-/

namespace Turnstile.Sim

open Remote (Reply)
open Strand (Leads Yields)

/-- A call at the coordination server that has to do with permits. -/
inductive Errand
  | take (key : String) (plan : PoolPlan) (demand : PoolDemand)
  | give (key : String)

/-- What a call through client `n` does. -/
def Errand.code (n : Nat) : Errand → Code Ending
  | take key plan demand => Scene.finished (.permits (.remote n) key plan demand)
  | give key => Scene.finished (.giveBack (.remote n) key)

/-- A poll for permits was answered with 1. -/
def isGrant : Asked operations → Bool
  | ⟨.wait (.exchange (.run .takePermits _ _)), (r : Reply)⟩ => r.int64.toOption = some 1
  | _ => false

/-- Permits that were granted were put on their stack. -/
def isNote : Asked operations → Bool
  | ⟨.deed (.remember _ _ _ _), _⟩ => true
  | _ => false

/-- The latest permits were taken off their stack. -/
def isPop : Asked operations → Bool
  | ⟨.deed (.takeLatest _ _), _⟩ => true
  | _ => false

theorem isGrant_iff {keys : List Remote.Name} {args : List Remote.Argument} {r : Reply} :
    isGrant ⟨.wait (.exchange (.run .takePermits keys args)), r⟩ = true ↔ r.int64 = .ok 1 := by
  show decide (r.int64.toOption = some 1) = true ↔ _
  rw [decide_eq_true_iff]
  cases r.int64 <;> simp [Except.toOption]

theorem isPop_of_isGrant {a : Asked operations} (ha : isGrant a = true) : isPop a = false := by
  unfold isGrant at ha
  split at ha
  · rfl
  · cases ha

/-! ### The course of a call -/

/-- One poll for permits. -/
def takeCommand (key : String) (plan : PoolPlan) (demand : PoolDemand) : Remote.Command :=
  .run .takePermits [.pool key]
    [.number plan.capacity.toNat, .number demand.permits.toNat,
      .number (Remote.atLeastOneMilli plan.lifetime)]

/-- What gives permits back. -/
def giveCommand (key : String) (permits : UInt32) (lifetime : Duration) : Remote.Command :=
  .run .givePermits [.pool key]
    [.number permits.toNat, .number (Remote.atLeastOneMilli lifetime)]

/-- How far a call has come. -/
inductive Phase
  | polling
  /-- The permits are granted, and not yet on their stack. -/
  | granted
  | noted
  | calling
  /-- This was on the top of the stack. -/
  | returning (latest : Option (UInt32 × Duration))

def Phase.next : Phase → Asked operations → Phase
  | polling, e => if isGrant e then granted else polling
  | granted, e => if isNote e then noted else granted
  | calling, ⟨.deed (.takeLatest _ _), latest⟩ => returning latest
  | φ, _ => φ

namespace Errand

def start : Errand → Phase
  | take _ _ _ => .polling
  | give _ => .calling

/-- What a call through client `n` may ask for, by how far it has come. -/
inductive Asks (n : Nat) : Errand → Phase → Op → Prop
  | clock {key : String} {plan : PoolPlan} {demand : PoolDemand} :
    Asks n (take key plan demand) .polling (.deed .clock)
  | pause {key : String} {plan : PoolPlan} {demand : PoolDemand} (d : Duration) :
    Asks n (take key plan demand) .polling (.wait (.sleep d))
  | poll {key : String} {plan : PoolPlan} {demand : PoolDemand} :
    Asks n (take key plan demand) .polling (.wait (.exchange (takeCommand key plan demand)))
  | loadTake {key : String} {plan : PoolPlan} {demand : PoolDemand} :
    Asks n (take key plan demand) .polling (.wait (.exchange (.load .takePermits)))
  | note {key : String} {plan : PoolPlan} {demand : PoolDemand} :
    Asks n (take key plan demand) .granted
      (.deed (.remember n key demand.permits plan.lifetime))
  | pop {key : String} : Asks n (give key) .calling (.deed (.takeLatest n key))
  | send {key : String} {permits : UInt32} {lifetime : Duration} :
    Asks n (give key) (.returning (some (permits, lifetime)))
      (.wait (.exchange (giveCommand key permits lifetime)))
  | loadGive {key : String} {latest : UInt32 × Duration} :
    Asks n (give key) (.returning (some latest)) (.wait (.exchange (.load .givePermits)))

def verdict (r : Except GuardError Bool) : Ending := .finished (.verdict r)

def settled (r : Except GuardError Unit) : Ending := .finished (.settled r)

/-- How a call may end, by how far it has come. -/
inductive Ends : Errand → Phase → Ending → Prop
  | taken {key : String} {plan : PoolPlan} {demand : PoolDemand} :
    Ends (take key plan demand) .noted (verdict (.ok true))
  | denied {key : String} {plan : PoolPlan} {demand : PoolDemand} {r : Except GuardError Bool} :
    r ≠ .ok true → Ends (take key plan demand) .polling (verdict r)
  | given {key : String} {latest : Option (UInt32 × Duration)} {r : Except GuardError Unit} :
    Ends (give key) (.returning latest) (settled r)

/-- However it is answered, the call asks for nothing else and ends in no other way, if `f` says
what its result means. -/
abbrev Follows {α : Type} (n : Nat) (e : Errand) (f : α → Ending) :
    Phase → Strand operations Pledge α → Prop :=
  Strand.Always Pledge.code Phase.next (fun φ _ op => e.Asks n φ op) fun a φ _ => e.Ends φ (f a)

variable {n : Nat} {key : String} {plan : PoolPlan} {demand : PoolDemand}

theorem poll_follows (deadline fuel : Nat) (owed : List Pledge) :
    (take key plan demand).Follows n verdict .polling
      ⟨Code.remote n (Remote.Permits.poll key plan demand.permits deadline fuel), owed⟩ := by
  induction fuel generalizing owed with
  | zero => exact .done (.denied nofun)
  | succ fuel ih =>
    unfold Remote.Permits.poll
    rw [Code.remote_bind]
    refine (run_always (R := fun a φ => a = .ok 1 ∧ φ = .granted ∨ a ≠ .ok 1 ∧ φ = .polling) .poll
      .loadTake (fun _ => rfl) (fun r => ?_) (fun r hr => ?_) fun e => ?_).bind ?_
    · by_cases hr : r.int64 = .ok 1
      · exact .inl ⟨hr, if_pos (isGrant_iff.2 hr)⟩
      · exact .inr ⟨hr, if_neg (mt isGrant_iff.1 hr)⟩
    · obtain ⟨e, he⟩ := int64_of_isUnknownScript hr
      refine if_neg (mt isGrant_iff.1 ?_)
      rw [he]
      nofun
    · exact .inr ⟨nofun, rfl⟩
    rintro a φ owed' ⟨⟨rfl, rfl⟩ | ⟨hnot, rfl⟩, -⟩
    · exact .call .note fun _ => .done .taken
    cases a with
    | error e => exact .done (.denied nofun)
    | ok taken =>
      dsimp only
      rw [if_neg fun htaken => hnot (congrArg Except.ok htaken)]
      split
      · exact .done (.denied nofun)
      refine .call .clock fun (now : Nat) => ?_
      show Strand.Always _ _ _ _ Phase.polling
        ⟨Code.remote n (if deadline ≤ now then _ else _), owed'⟩
      split
      · exact .done (.denied nofun)
      · exact .call (.pause _) fun _ => ih owed'

theorem Follows.reply {α : Type} {e : Errand} {φ : Phase} {f : α → Answer} {p : Code α}
    (h : e.Follows n (fun r => .finished (f r)) φ ⟨p, []⟩) :
    e.Follows n id φ ⟨(Step.reply f p).bind fun a => .done (.finished a), []⟩ :=
  (h.bind fun _ _ _ hr => .done hr).bind
    (Q := fun a φ _ => e.Ends φ (.finished a)) fun _ _ _ ha => .done ha

/-- How often it polls does not matter. -/
theorem clock_follows (fuel : Nat) :
    (take key plan demand).Follows n verdict .polling
      ⟨Code.remote n (.call .clock fun (now : Nat) =>
        Remote.Permits.poll key plan demand.permits (now + demand.wait.nanos) fuel), []⟩ :=
  .call .clock fun _ => poll_follows _ _ _

theorem take_follows : (take key plan demand).Follows n id .polling
    ⟨(take key plan demand).code n, []⟩ := by
  refine .reply ?_
  show Strand.Always _ _ _ _ Phase.polling
    ⟨Code.remote n (Remote.Permits.take key plan demand), []⟩
  unfold Remote.Permits.take
  split
  · exact .done (.denied nofun)
  · exact .done (.denied nofun)
  · exact .done (.denied nofun)
  · exact clock_follows _

theorem give_follows : (give key).Follows n id .calling ⟨(give key).code n, []⟩ := by
  refine .reply (.call .pop fun (latest : Option (UInt32 × Duration)) => ?_)
  cases latest with
  | none => exact .done .given
  | some latest =>
    obtain ⟨permits, lifetime⟩ := latest
    show Strand.Always _ _ _ _ (Phase.returning _)
      ⟨Code.remote n (Program.bind (Remote.run ..) _), []⟩
    rw [Code.remote_bind]
    refine (run_always (R := fun _ φ => φ = .returning (some (permits, lifetime))) .send .loadGive
      (fun _ => rfl) (fun _ => rfl) (fun _ _ => rfl) fun _ => rfl).bind ?_
    rintro a φ owed ⟨rfl, -⟩
    exact .done .given

theorem follows (e : Errand) : e.Follows n id e.start ⟨e.code n, []⟩ := by
  cases e with
  | take key plan demand => exact take_follows
  | give key => exact give_follows

/-- What is asked for permits that are not granted, or not yet. -/
structure Polls (n : Nat) (key : String) (plan : PoolPlan) (demand : PoolDemand)
    (e : Asked operations) : Prop where
  asks : (take key plan demand).Asks n .polling e.call
  denied : isGrant e = false

/-- What a call has asked and was answered, by how far it has come. -/
inductive Course (n : Nat) : Errand → Phase → List (Asked operations) → Prop
  | polling {key : String} {plan : PoolPlan} {demand : PoolDemand} {t : List (Asked operations)} :
    (∀ e ∈ t, Polls n key plan demand e) → Course n (take key plan demand) .polling t
  | granted {key : String} {plan : PoolPlan} {demand : PoolDemand} {t : List (Asked operations)}
    {r : Reply} : (∀ e ∈ t, Polls n key plan demand e) → r.int64 = .ok 1 →
    Course n (take key plan demand) .granted
      (t ++ [⟨.wait (.exchange (takeCommand key plan demand)), r⟩])
  | noted {key : String} {plan : PoolPlan} {demand : PoolDemand} {t : List (Asked operations)}
    {r : Reply} : (∀ e ∈ t, Polls n key plan demand e) → r.int64 = .ok 1 →
    Course n (take key plan demand) .noted
      (t ++ [⟨.wait (.exchange (takeCommand key plan demand)), r⟩] ++
        [⟨.deed (.remember n key demand.permits plan.lifetime), ()⟩])
  | calling {key : String} : Course n (give key) .calling []
  | returning {key : String} {latest : Option (UInt32 × Duration)} {t : List (Asked operations)} :
    (∀ e ∈ t, (give key).Asks n (.returning latest) e.call) →
    Course n (give key) (.returning latest) (⟨.deed (.takeLatest n key), latest⟩ :: t)

section

variable {e : Errand} {φ : Phase} {t : List (Asked operations)}

theorem Course.next {op : Op} (h : Course n e φ t) (hop : e.Asks n φ op)
    (a : operations.Answer op) : Course n e (φ.next ⟨op, a⟩) (t ++ [⟨op, a⟩]) := by
  cases h with
  | polling ht =>
    by_cases hg : isGrant ⟨op, a⟩ = true
    · have hnext : Phase.next .polling ⟨op, a⟩ = .granted := if_pos hg
      rw [hnext]
      cases hop with
      | poll => exact .granted ht (isGrant_iff.1 hg)
      | _ => cases hg
    · have hnext : Phase.next .polling ⟨op, a⟩ = .polling := if_neg hg
      rw [hnext]
      refine .polling (List.forall_mem_append.2 ⟨ht, List.forall_mem_singleton.2 ?_⟩)
      exact ⟨hop, Bool.eq_false_iff.2 hg⟩
  | granted ht hr =>
    cases hop
    exact .noted ht hr
  | noted ht hr => cases hop
  | calling =>
    cases hop
    exact .returning (List.forall_mem_nil _)
  | @returning _ latest _ ht =>
    have hnext : Phase.next (.returning latest) ⟨op, a⟩ = .returning latest := rfl
    rw [hnext]
    exact .returning (List.forall_mem_append.2 ⟨ht, List.forall_mem_singleton.2 hop⟩)

theorem course_of_leads {s : Strand operations Pledge Ending}
    (hl : Leads Pledge.code ⟨e.code n, []⟩ t s) : Course n e (t.foldl Phase.next e.start) t := by
  induction hl with
  | here =>
    cases e with
    | take key plan demand => exact .polling (List.forall_mem_nil _)
    | give key => exact .calling
  | step hl hs ih =>
    rw [List.foldl_append]
    cases hs with
    | call c k owed a => exact ih.next (((follows e).leads hl).ok_of_call rfl) a
    | _ =>
      rw [List.append_nil]
      exact ih

/-- A call has permits that are not yet on their stack if its last entry is their grant. -/
theorem Course.granted_iff {a : Asked operations} (hc : Course n e φ (t ++ [a])) :
    φ = .granted ↔ isGrant a = true := by
  generalize hl : t ++ [a] = l at hc
  have hmem : a ∈ l := hl ▸ List.mem_append_right t (List.mem_singleton_self a)
  cases hc with
  | polling ht => simp [(ht a hmem).denied]
  | granted ht hr =>
    obtain ⟨-, ha⟩ := List.append_inj' hl rfl
    cases ha
    simp [takeCommand, isGrant_iff, hr]
  | noted ht hr =>
    obtain ⟨-, ha⟩ := List.append_inj' hl rfl
    cases ha
    simp [isGrant]
  | calling => cases hmem
  | returning ht =>
    refine iff_of_false nofun ?_
    rcases List.mem_cons.1 hmem with rfl | hmem
    · simp [isGrant]
    · obtain ⟨call, answer⟩ := a
      have hask := ht _ hmem
      dsimp only at hask
      cases hask <;> simp [isGrant, giveCommand]

/-- Permits that are granted are put on their stack next, and no others are. -/
theorem Asks.isNote_eq {op : Op} (hop : e.Asks n φ op) (a : operations.Answer op) :
    (φ = .granted → isNote ⟨op, a⟩ = true ∧ isGrant ⟨op, a⟩ = false ∧ isPop ⟨op, a⟩ = false) ∧
      (φ ≠ .granted → isNote ⟨op, a⟩ = false) := by
  cases hop <;> simp [isNote, isGrant, isPop]

/-- A call that polls does nothing to the stacks. -/
theorem Asks.quiet {op : Op} (hop : e.Asks n .polling op) (a : operations.Answer op) :
    isNote ⟨op, a⟩ = false ∧ isPop ⟨op, a⟩ = false := by
  cases hop <;> simp [isNote, isPop]

end

end Errand

/-! ### Permits that are given back -/

/-- A call of client `n`, as an operation. -/
def Code.asked (n : Nat) : Asked Remote.client → Asked operations
  | ⟨.send c, (r : Reply)⟩ => ⟨.wait (.exchange c), r⟩
  | ⟨.clock, (now : Nat)⟩ => ⟨.deed .clock, now⟩
  | ⟨.pause d, _⟩ => ⟨.wait (.sleep d), ()⟩
  | ⟨.watch lock owner lease, _⟩ => ⟨.deed (.watch n lock owner lease), ()⟩
  | ⟨.unwatch lock owner, _⟩ => ⟨.deed (.unwatch n lock owner), ()⟩
  | ⟨.remember key permits lifetime, _⟩ => ⟨.deed (.remember n key permits lifetime), ()⟩
  | ⟨.takeLatest key, (latest : Option (UInt32 × Duration))⟩ =>
    ⟨.deed (.takeLatest n key), latest⟩

theorem Code.run_yields {α : Type} {n : Nat} {script : Remote.Script} {keys : List Remote.Name}
    {args : List Remote.Argument} {read : Reply → Except GuardError α} :
    Yields Pledge.code
      (fun t a => ∃ u, t = u.map (Code.asked n) ∧ Remote.Ran script keys args read u a)
      (Code.remote n (Remote.run script keys args read)) := by
  refine .call fun (reply : Reply) => ?_
  show Yields _ _ (Code.remote n (if reply.isUnknownScript then _ else _))
  split
  · rename_i hreply
    refine .call fun (loaded : Reply) => ?_
    dsimp only [Program.bind]
    cases hl : loaded.failure? with
    | some e => exact .done ⟨_, rfl, .unsent hreply hl⟩
    | none => exact .call fun (reply' : Reply) => .done ⟨_, rfl, .sent hreply hl⟩
  · rename_i hreply
    exact .done ⟨_, rfl, .known (Bool.eq_false_iff.2 hreply)⟩

namespace Errand

variable {n : Nat} {key : String}

/-- A call that gives permits back, from its beginning to its end: it takes the latest permits off
their stack and, if there are any, runs one script with them. -/
inductive Gave (n : Nat) (key : String) :
    Option (UInt32 × Duration) → List (Asked operations) → Ending → Prop
  | nothing : Gave n key none [] (settled (.ok ()))
  | sent {permits : UInt32} {lifetime : Duration} {u : List (Asked Remote.client)}
    {a : Except GuardError Int} :
    Remote.Ran .givePermits [.pool key]
      [.number permits.toNat, .number (Remote.atLeastOneMilli lifetime)] Reply.int64 u a →
    Gave n key (some (permits, lifetime)) (u.map (Code.asked n)) (settled (a.map fun _ => ()))

theorem give_yields : Yields Pledge.code
    (fun t a => ∃ latest u, t = ⟨.deed (.takeLatest n key), latest⟩ :: u ∧ Gave n key latest u a)
    ((give key).code n) := by
  refine .call fun (latest : Option (UInt32 × Duration)) => ?_
  cases latest with
  | none => exact .done ⟨none, [], rfl, .nothing⟩
  | some latest =>
    obtain ⟨permits, lifetime⟩ := latest
    show Yields _ _ (((Code.remote n (Program.bind (Remote.run ..) _)).bind _).bind _)
    rw [Code.remote_bind, Program.bind_assoc, Program.bind_assoc]
    refine Code.run_yields.bind ?_
    rintro a _ ⟨u, rfl, hu⟩
    exact .done ⟨_, _, congrArg (List.cons _) (List.append_nil _), .sent hu⟩

end Errand

end Turnstile.Sim
