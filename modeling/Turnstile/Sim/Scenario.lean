import Turnstile.Schedule.Machine
import Turnstile.Sim.Wiring
import Turnstile.Sim.World

/-!
# Scenarios

A scenario is a list of moves in a fresh world. A move carries out a step in the foreground or in a
task of its own, or asks about such a task. After a move every task that can run runs to its next
wait at the same instant, unless the move says otherwise. `Scene.play` reports on each move.
-/

namespace Turnstile.Sim

open Admission (Held)
open Schedule

/-- The world as a host of tasks. -/
def host : Host where
  calls := operations
  Pledge := Pledge
  Result := Ending
  State := World
  Pending := Op.Pending
  due? := Op.due?
  signal? := Op.signal?
  perform := fun w now ticket op => match op with
    | .wait x => w.begin now ticket x
    | .deed d =>
      let (w, orders, a) := w.carryOut now d
      (w, orders, .answered a)
  resume := fun w now op p => match op, p with
    | .wait x, (p : x.Pending) => w.resume now x p
    | .deed _, (p : Empty) => p.elim
  cancel := fun w _ op p => match op, p with
    | .wait x, (p : x.Pending) => w.cancel x p
    | .deed _, (p : Empty) => p.elim
  settle := Pledge.code
  forfeit := fun w _ r => w.forfeit r
  next? := fun e => match e with
    | .again s => some s.round
    | .finished _ => none

/-- What work under a lock does: it may take some time, and then it ends as said. -/
structure Work where
  pause : Option Duration
  result : Except AdmissionError Json

def Work.routine (w : Work) : Admission.Routine (Except AdmissionError Json) :=
  match w.pause with
  | some d => .call (.pause d) fun _ => .done w.result
  | none => .done w.result

/-- What a scenario can do in the foreground or in a task. -/
inductive Step
  | rate (p : Post) (key : String) (wait : Duration) (plan : RatePlan)
  | lock (p : Post) (key : String) (owner : Ulid) (wait : Duration)
  | isHeldBy (p : Post) (key : String) (owner : Ulid)
  | unlock (p : Post) (key : String) (owner : Ulid)
  | permits (p : Post) (key : String) (plan : PoolPlan) (demand : PoolDemand)
  | giveBack (p : Post) (key : String)
  | flag (p : FlagPost) (name : String)
  /-- Takes a named lock and keeps it under a name. -/
  | keep (key : String) (wait : Duration) (name : String)
  | underLock (key : String) (wait : Duration) (work : Work)
  | underSpareLock (key : String) (wait : Duration) (work : Work)
  | reserve (request : Request)
  | sleep (d : Duration)
  | act (a : Act)

/-- Where the guards of work under a lock stand. -/
def Wiring.watched : Wiring where
  rate := .store .primary .primary
  lock := .store .primary .primary
  permits := .store .primary .primary
  spareRate := .store .primary .spare
  spareLock := .store .primary .spare
  sparePermits := .store .primary .spare
  flags := .watched
  audience := .hub
  lease := .zero

namespace Step

def reply {α : Type} (f : α → Answer) (p : Code α) : Code Answer := p.bind fun a => .done (f a)

/-- The lock of a client is used only while somebody holds on to it. -/
def withLock (post : Post) (p : Duration → Code Answer) : Code Answer :=
  match post with
  | .store _ _ => p .zero
  | .remote _ =>
    (Code.deed .useLock).bind fun (lease : Option Duration) =>
      match lease with
      | some lease => (p lease).owing (.letGo 0)
      | none => .done .noLock

/-- The program of a step. -/
def code : Step → Code Answer
  | rate p key wait plan => reply .verdict (p.rate key wait plan)
  | lock p key owner wait => withLock p fun lease => reply .verdict (p.lock lease key owner wait)
  | isHeldBy p key owner => withLock p fun _ => reply .verdict (p.isHeldBy key owner)
  | unlock p key owner => withLock p fun _ => reply .verdict (p.unlock key owner)
  | permits p key plan demand => reply .verdict (p.permits key plan demand)
  | giveBack p key => reply .settled (p.giveBack key)
  | flag p name => reply .verdict (p.isEnabled name)
  | keep key wait name =>
    ((SpareLockPost.store .primary .off).lock key wait).bind fun
      | .error e => .done (.verdict (.error e))
      | .ok none => .done (.verdict (.ok false))
      | .ok (some held) =>
        (Code.deed (.act (.keepNamed name held))).bind fun _ => .done (.verdict (.ok true))
  | underLock key wait work =>
    reply .underLock (Wiring.watched.run (Admission.underLock ⟨key⟩ wait work.routine))
  | underSpareLock key wait work =>
    reply .work (Wiring.watched.run (Admission.underSpareLock ⟨key⟩ wait work.routine))
  | reserve request =>
    (Code.deed .useController).bind fun (c : Option Controller) =>
      match c with
      | none => .done .noController
      | some c => c.wiring.holding (reply .reservation (c.wiring.run (c.policy.reserve request)))
  | sleep d => reply (fun _ => .null) (Code.wait (.sleep d))
  | act a => Code.deed (.act a)

end Step

inductive Move
  /-- A step in the foreground. -/
  | step (s : Step) (settles : Bool)
  /-- A step in a task under a name. -/
  | spawn (name : String) (s : Step) (settles : Bool)
  /-- Whether a task is over. -/
  | poll (name : String)
  /-- Waits for a task and forgets its name. -/
  | join (name : String)
  /-- Drops a task, unless it is over. -/
  | abort (name : String)

/-- What a move comes to. -/
inductive Shown
  | answer (a : Answer)
  | joined (a : Answer) (time : Nat)
  | cancelled

structure Report where
  shown : Shown
  time : Nat
  /-- What the primary store counts then. -/
  counts : List Nat

/-- A scenario on its way: the scheduler, and the tasks that have names. -/
structure Scene where
  machine : Machine host
  names : Table String Nat

namespace Scene

def ofWorld (w : World) : Scene := ⟨.idle w, .empty⟩

/-- A world without a coordination server. -/
def fresh : Scene := ofWorld .fresh

/-- Runs every task to its next wait. -/
def settle (s : Scene) : Scene := { s with machine := s.machine.settle Machine.plenty }

/-- A world with a coordination server and one client. -/
def withServer (lease : Duration) : Scene :=
  let w := { World.fresh with clients := [⟨lease, 1, .empty, .empty⟩], hasLock := true }
  let s := ofWorld w
  { s with machine := s.machine.spawn none (.done (.again .server)) [] }.settle

def finished (s : Step) : Code Ending := s.code.bind fun a => .done (.finished a)

/-- The answer of a task that is over, and when it was over. -/
def ending (m : Machine host) (id : Nat) : Option (Answer × Nat) :=
  match m.result? id with
  | some (.finished a, time) => some (a, time)
  | _ => none

/-- The scenario after a move, before its tasks settle. -/
def begin (s : Scene) : Move → Scene × Shown
  | .step x _ =>
    let (m, id) := s.machine.runFront (finished x)
    ({ s with machine := m }, .answer (((ending m id).map (·.1)).getD .null))
  | .spawn name x _ =>
    ({ machine := s.machine.spawn none (finished x) []
       names := s.names.insert name s.machine.tasks.length }, .answer .null)
  | .poll name =>
    (s, .answer (match s.names.get? name with
      | some id => .bool (s.machine.isOver id)
      | none => .null))
  | .join name =>
    match s.names.get? name with
    | none => (s, .answer .null)
    | some id =>
      let m := s.machine.await id Machine.plenty
      ({ machine := m, names := s.names.erase name },
        match ending m id with
        | some (a, time) => .joined a time
        | none => .cancelled)
  | .abort name =>
    match s.names.get? name with
    | none => (s, .answer (.bool false))
    | some id => ({ s with machine := s.machine.stop id }, .answer (.bool true))

def settles : Move → Bool
  | .step _ b => b
  | .spawn _ _ b => b
  | _ => true

def report (s : Scene) (shown : Shown) : Report :=
  ⟨shown, s.machine.now, World.counts s.machine.state.primary⟩

def move (s : Scene) (m : Move) : Scene × Report :=
  let (s, shown) := s.begin m
  let s := if settles m then s.settle else s
  (s, s.report shown)

/-- Carries out moves one after another. -/
def play (s : Scene) : List Move → List Report
  | [] => []
  | m :: rest =>
    let (s, r) := s.move m
    r :: s.play rest

end Scene

end Turnstile.Sim
