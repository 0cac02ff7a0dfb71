import Turnstile.Duration
import Turnstile.Schedule.Host

/-!
# The scheduler

One thread, a virtual clock, and tasks that are ready run in the order in which they became ready.
A task runs until a call blocks it or it ends. The clock stands still while a task can run; then it
jumps to the next timer, and timers fire at whole milliseconds, in the order in which they were set.
A task that is dropped is dropped when its turn comes. One task may be the front: it is the first to
run when the clock has jumped, and else it waits until no other task is ready.
-/

namespace Turnstile

namespace Schedule

variable {H : Host}

inductive TaskState (H : Host)
  | fresh (p : H.Code) (owed : List H.Pledge)
  /-- Blocked by the call `c`, for the time that has the number `since`. -/
  | blocked (c : H.calls.Call) (w : H.Pending c) (k : H.calls.Answer c → H.Code)
      (owed : List H.Pledge) (since : Nat)
  | running
  | ended (r : H.Result) (time : Nat)
  | dropped

structure Task (H : Host) where
  state : TaskState H
  tag : Option Nat
  /-- The task is to be dropped when its turn comes. -/
  stopped : Bool

structure Running (H : Host) where
  id : Nat
  code : H.Code
  /-- What is still owed, latest first. -/
  owed : List H.Pledge

structure Machine (H : Host) where
  now : Nat
  state : H.State
  /-- All tasks, by their numbers. -/
  tasks : List (Task H)
  /-- The tasks that can run, in the order in which they became ready. -/
  ready : List Nat
  running : Option (Running H)
  front : Option Nat
  /-- The next ticket. -/
  tickets : Nat

namespace TaskState

def isOver : TaskState H → Bool
  | ended _ _ => true
  | dropped => true
  | _ => false

def due? : TaskState H → Option Nat
  | blocked c w _ _ _ => H.due? c w
  | _ => none

/-- When the task began to wait, in the order of all waits. -/
def since : TaskState H → Nat
  | blocked _ _ _ _ n => n
  | _ => 0

/-- The timer of a blocked call has fired. -/
def isDue (s : TaskState H) (now : Nat) : Bool :=
  match s.due? with
  | some t => Clock.tick t ≤ now
  | none => false

def waitsFor (s : TaskState H) (signal : Nat) : Bool :=
  match s with
  | blocked c w _ _ _ => H.signal? c w = some signal
  | _ => false

end TaskState

namespace Machine

def idle (s : H.State) : Machine H := ⟨0, s, [], [], none, none, 0⟩

def setTask (m : Machine H) (id : Nat) (s : TaskState H) : Machine H :=
  { m with tasks := m.tasks.modify id fun t => { t with state := s } }

/-- Puts a task at the end of the ready ones, if it is not among them. -/
def enqueue (m : Machine H) (id : Nat) : Machine H :=
  if id ∈ m.ready then m else { m with ready := m.ready ++ [id] }

/-- The numbers of the tasks that satisfy `p`. -/
def numbers (m : Machine H) (p : Task H → Bool) : List Nat :=
  (List.range m.tasks.length).filter fun id => (m.tasks[id]?.map p).getD false

def wake (m : Machine H) (signal : Nat) : Machine H :=
  (m.numbers fun t => t.state.waitsFor signal).foldl enqueue m

/-- Adds a task and makes it ready. -/
def spawn (m : Machine H) (tag : Option Nat) (p : H.Code) (owed : List H.Pledge) : Machine H :=
  { m with tasks := m.tasks ++ [⟨.fresh p owed, tag, false⟩], ready := m.ready ++ [m.tasks.length] }

/-- Marks a task that is not over to be dropped. -/
def stop (m : Machine H) (id : Nat) : Machine H :=
  match m.tasks[id]? with
  | some t =>
    if t.state.isOver || t.stopped then m
    else ({ m with tasks := m.tasks.modify id fun t => { t with stopped := true } }).enqueue id
  | none => m

def stopTag (m : Machine H) (tag : Nat) : Machine H :=
  (m.numbers fun t => t.tag = some tag).foldl stop m

def obey (m : Machine H) : Order H.calls H.Pledge H.Result → Machine H
  | .wake signal => m.wake signal
  | .start tag p owed => m.spawn tag p owed
  | .stop tag => m.stopTag tag

def obeyAll (m : Machine H) (orders : H.Orders) : Machine H := orders.foldl obey m

/-- Forfeits what a dropped task owed, latest first. -/
def forfeitAll (m : Machine H) (owed : List H.Pledge) : Machine H :=
  owed.foldl (fun m r =>
    let (s, orders) := H.forfeit m.state m.now r
    { m with state := s }.obeyAll orders) m

/-- Drops a task: what it waits for is forgotten and what it owes is forfeited. -/
def drop (m : Machine H) (id : Nat) : TaskState H → Machine H
  | .fresh _ owed => (m.setTask id .dropped).forfeitAll owed
  | .blocked c w _ owed _ =>
    let (s, orders) := H.cancel m.state m.now c w
    (({ m with state := s }.setTask id .dropped).obeyAll orders).forfeitAll owed
  | _ => m

/-- What follows a look at the call `c` by the task `id`. -/
def proceed (m : Machine H) (id : Nat) (c : H.calls.Call) (k : H.calls.Answer c → H.Code)
    (owed : List H.Pledge) : Look (H.calls.Answer c) (H.Pending c) → Machine H
  | .answered a => { m with running := some ⟨id, k a, owed⟩ }
  | .blocked w =>
    { m.setTask id (.blocked c w k owed m.tickets) with running := none, tickets := m.tickets + 1 }

/-- Lets a ready task have its turn. -/
def turn (m : Machine H) (id : Nat) : Machine H :=
  match m.tasks[id]? with
  | none => m
  | some t =>
    if t.stopped then m.drop id t.state
    else match t.state with
      | .fresh p owed => { m.setTask id .running with running := some ⟨id, p, owed⟩ }
      | .blocked c w k owed _ =>
        let (s, orders, look) := H.resume m.state m.now c w
        ({ m.setTask id .running with state := s }.obeyAll orders).proceed id c k owed look
      | _ => m

/-- One node of the program that runs. -/
def advance (m : Machine H) (r : Running H) : Machine H :=
  match r.code with
  | .done a =>
    match H.next? a with
    | some p => { m with running := some { r with code := p } }
    | none => { m.setTask r.id (.ended a m.now) with running := none }
  | .call c k =>
    let (s, orders, look) := H.perform m.state m.now m.tickets c
    ({ m with state := s, tickets := m.tickets + 1 }.obeyAll orders).proceed r.id c k r.owed look
  | .owe p code => { m with running := some { r with code, owed := p :: r.owed } }
  | .settle code =>
    match r.owed with
    | [] => { m with running := some { r with code } }
    | p :: owed =>
      { m with running := some { r with code := (H.settle p).bind fun _ => code, owed } }

/-- The task whose turn it is: the first ready one, or the front if no other task is ready. -/
def next? (m : Machine H) : Option Nat :=
  (m.ready.find? fun id => m.front ≠ some id).or m.ready.head?

/-- The smallest step: a node of the program that runs, or the next task gets its turn. Nothing
happens if there is none. -/
def step? (m : Machine H) : Option (Machine H) :=
  match m.running with
  | some r => some (m.advance r)
  | none => m.next?.map fun id => { m with ready := m.ready.erase id }.turn id

/-- The next millisecond at which a timer fires. -/
def nextTick? (m : Machine H) : Option Nat :=
  (m.tasks.filterMap fun t => t.state.due?.map Clock.tick).min?

def since (m : Machine H) (id : Nat) : Nat := (m.tasks[id]?.map (·.state.since)).getD 0

/-- The tasks whose timers have fired, in the order in which the timers were set. -/
def due (m : Machine H) : List Nat :=
  (m.numbers fun task => task.state.isDue m.now).mergeSort fun i j => m.since i ≤ m.since j

/-- The clock jumps to `t`. The tasks whose timers fire then are ready, and the front has its turn
before them. -/
def jump (m : Machine H) (t : Nat) : Machine H :=
  let m := { m with now := max m.now t }
  let fired := m.due
  let woken := (fired.filter fun id => m.front ≠ some id).foldl enqueue m
  match fired.find? fun id => m.front = some id with
  | some id => woken.turn id
  | none => woken

/-- Runs tasks at the present instant until none can run, in at most `fuel` steps. -/
def settle : Nat → Machine H → Machine H
  | 0, m => m
  | fuel + 1, m =>
    match m.step? with
    | some m => settle fuel m
    | none => m

def isOver (m : Machine H) (id : Nat) : Bool := (m.tasks[id]?.map (·.state.isOver)).getD true

/-- Runs tasks, and lets time pass when none can run, until the task `id` is over; at most `fuel`
steps. -/
def await (id : Nat) : Nat → Machine H → Machine H
  | 0, m => m
  | fuel + 1, m =>
    if m.isOver id then m
    else match m.step? with
      | some m => await id fuel m
      | none =>
        match m.nextTick? with
        | some t => await id fuel (m.jump t)
        | none => m

/-- Steps enough for any run. -/
def plenty : Nat := Nat.pow 2 62

/-- Runs a program in the foreground: it starts at once, before the tasks that are ready, and the
machine runs until it is over. -/
def runFront (m : Machine H) (p : H.Code) : Machine H × Nat :=
  let id := m.tasks.length
  let task : Task H := ⟨.running, none, false⟩
  let m := { m with tasks := m.tasks ++ [task], running := some ⟨id, p, []⟩, front := some id }
  (m.await id plenty, id)

def result? (m : Machine H) (id : Nat) : Option (H.Result × Nat) :=
  match m.tasks[id]? with
  | some ⟨.ended r time, _, _⟩ => some (r, time)
  | _ => none

end Machine

end Schedule

end Turnstile
