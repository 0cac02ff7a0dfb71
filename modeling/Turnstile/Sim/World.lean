import Turnstile.Json.Forms
import Turnstile.Ledger
import Turnstile.Sim.Wiring

/-!
# The simulated world

Everything that a scenario can touch: two local stores, the ledger, flags, notices, faults, the
trace, measurements, and the coordination server with its clients. Each operation changes the world
and may have orders for the scheduler.
-/

namespace Turnstile.Sim

open Admission (Held)

/-- A client of the coordination server. -/
structure Client where
  lease : Duration
  /-- How many hold on to its lock. When nobody does, no lease is kept alive any more. -/
  users : Nat
  /-- The watchdogs of the locks that it holds, by the tags of their tasks. -/
  renewals : Table (Remote.Name × Ulid) Nat
  /-- Permits that were granted and not given back, latest first. -/
  outstanding : Table String (List (UInt32 × Duration))

structure Server where
  queue : List (Ticket × Remote.Command)
  /-- Replies that were sent and not looked at. -/
  replies : Table Ticket Remote.Reply
  scripts : Table String (List Scripted)
  /-- The owner whom each lock was last granted to. -/
  granted : Table Remote.Name Ulid
  records : List Remote.Command

structure World where
  primary : Local.Store
  separate : Local.Store
  ledger : Ledger
  flags : Table String Bool
  hub : Hub
  log : List String
  faults : Table String Fault
  trace : List String
  measures : Measures
  named : Table String Held
  subscriptions : Table String Subscription
  controller : Option Controller
  reaper : Option Nat
  server : Server
  clients : List Client
  /-- The scenario holds on to the lock of the first client. -/
  hasLock : Bool
  tags : Nat
  owners : Nat

abbrev Orders := List (Order operations Pledge Ending)

/-- The identity of the `n`-th owner that is made up. -/
def ownerId (n : Nat) : Ulid := .ofNat (Nat.pow 2 110 + n)

/-- The owner was made by the simulation. -/
def isMadeUp (u : Ulid) : Bool := Nat.pow 2 110 ≤ u.value.toNat

namespace Server

def fresh : Server := ⟨[], .empty, .empty, .empty, []⟩

/-- The name under which replies to a command are scripted. -/
def scriptName : Remote.Command → String
  | .run script _ _ => script.name
  | .get _ => "get"
  | .load _ => "load"

/-- The reply to a command that nothing is scripted for. -/
def defaultReply (s : Server) : Remote.Command → Remote.Reply
  | .run .takeToken _ _ => .int 0
  | .run _ _ _ => .int 1
  | .get name =>
    match s.granted.get? name with
    | some owner => .text (String.ofList owner.text)
    | none => .nil
  | .load _ => .status "loaded"

/-- Notes a command and chooses the reply to it. -/
def record (s : Server) (c : Remote.Command) : Server × Scripted :=
  let s := { s with records := s.records ++ [c] }
  match s.scripts.get? (scriptName c) with
  | some (reply :: rest) => ({ s with scripts := s.scripts.insert (scriptName c) rest }, reply)
  | _ => (s, ⟨.zero, s.defaultReply c⟩)

/-- The lock that a reply grants, and to whom. -/
def grant? : Remote.Command → Remote.Reply → Option (Remote.Name × Ulid)
  | .run .acquire (lock :: _) (.owner owner :: _), .int 1 => some (lock, owner)
  | _, _ => none

/-- Sends a reply. With the connection all commands on it are lost. -/
def deliver (s : Server) (t : Ticket) (c : Remote.Command) (r : Remote.Reply) :
    Server × List Ticket :=
  let s := match grant? c r with
    | some (lock, owner) => { s with granted := s.granted.insert lock owner }
    | none => s
  match r with
  | .closed =>
    let lost := t :: s.queue.map (·.1)
    let replies := lost.foldl (fun replies t => replies.insert t .closed) s.replies
    ({ s with queue := [], replies }, lost)
  | r => ({ s with replies := s.replies.insert t r }, [t])

end Server

namespace World

def fresh : World where
  primary := .fresh (.ofNat (Nat.pow 2 90))
  separate := .fresh (.ofNat (Nat.pow 2 90 + 1))
  ledger := .empty
  flags := .empty
  hub := .fresh
  log := []
  faults := .empty
  trace := []
  measures := .none
  named := .empty
  subscriptions := .empty
  controller := none
  reaper := none
  server := .fresh
  clients := []
  hasLock := false
  tags := 0
  owners := 0

def store (w : World) : Side → Local.Store
  | .primary => w.primary
  | .separate => w.separate

def setStore (w : World) (side : Side) (s : Local.Store) : World :=
  match side with
  | .primary => { w with primary := s }
  | .separate => { w with separate := s }

def gauge (w : World) (series : String) (value : Nat) : World :=
  { w with measures := w.measures.gauge series value }

def wakeAll (ts : List Ticket) : Orders := ts.map fun t => .wake (Wait.ticketSignal t)

/-- What a granted attempt reports. -/
def reportGrant (w : World) (side : Side) : Local.Attempt → World
  | .token _ _ _ => w.gauge Measures.names.buckets (w.store side).buckets.size
  | .lock _ _ _ => w.gauge Measures.names.locks (w.store side).holders.size
  | .permits _ _ _ => w.gauge Measures.names.pools (w.store side).pools.size
  | .named _ _ => w

/-- The world after a look at an attempt, and what became of it. -/
def settleAttempt (w : World) (side : Side) (a : Local.Attempt) (t : Ticket) (s : Local.Store) :
    Local.Progress → World × Look Local.Outcome (Ticket × Local.Waiting)
  | .done (.ok (some g)) => ((w.setStore side s).reportGrant side a, .answered (.ok (some g)))
  | .done o => (w.setStore side s, .answered o)
  | .waiting p => (w.setStore side s, .blocked (t, p))

/-- Lets go of a named lock. -/
def free (w : World) (side : Side) (held : Held) : World × Orders :=
  let (s, woken) := (w.store side).leaveLatch (Local.Store.lockName held.key) held.ticket
  (w.setStore side s, wakeAll woken)

def unlock (w : World) (side : Side) (key : String) (owner : Ulid) : World × Orders × Bool :=
  let (s, unlocked, woken) := (w.store side).unlock key owner
  ((w.setStore side s).gauge Measures.names.locks s.holders.size, wakeAll woken, unlocked)

def giveBack (w : World) (side : Side) (key : String) (now : Nat) : World × Orders :=
  let (s, woken) := (w.store side).giveBack key now
  (w.setStore side s, wakeAll woken)

/-- The fault for a call at the first of the points that has one, if it still applies. -/
def takeFault (w : World) (points : List String) : World × Option Fault :=
  match points.find? w.faults.contains with
  | none => (w, none)
  | some point =>
    match w.faults.get? point with
    | none => (w, none)
    | some f =>
      match f.left with
      | none => (w, some f)
      | some 0 => (w, none)
      | some (n + 1) =>
        ({ w with faults := w.faults.insert point { f with left := some n } }, some f)

def watched (w : World) (points : List String) (line : String) : World × Option Fault :=
  { w with trace := w.trace ++ [line] }.takeFault points

def publish (w : World) (e : Event) : Audience → World
  | .hub => { w with hub := w.hub.send e }
  | .log => { w with log := w.log ++ [Event.form.toLine e] }

def reap (w : World) (now : Nat) : World :=
  let s := w.primary.sweep now
  ((({ w with primary := s }.gauge Measures.names.buckets s.buckets.size).gauge
    Measures.names.pools s.pools.size).gauge Measures.names.locks s.holders.size)

def modifyClient (w : World) (n : Nat) (f : Client → Client) : World :=
  { w with clients := w.clients.modify n f }

/-- Starts a background task. -/
def startService (w : World) (s : Service) : World × Orders × Nat :=
  ({ w with tags := w.tags + 1 }, [.start (some w.tags) (.done (.again s)) []], w.tags)

/-- Keeps a lease alive from now on; a watchdog of the same lock and owner is replaced. -/
def watch (w : World) (n : Nat) (lock : Remote.Name) (owner : Ulid) (lease : Duration) :
    World × Orders :=
  let (w, orders, tag) := w.startService (.watchdog n lock owner lease)
  let old := (w.clients[n]?.bind fun c => c.renewals.get? (lock, owner)).toList
  (w.modifyClient n fun c => { c with renewals := c.renewals.insert (lock, owner) tag },
    orders ++ old.map .stop)

def unwatch (w : World) (n : Nat) (lock : Remote.Name) (owner : Ulid) : World × Orders :=
  let old := (w.clients[n]?.bind fun c => c.renewals.get? (lock, owner)).toList
  (w.modifyClient n fun c => { c with renewals := c.renewals.erase (lock, owner) }, old.map .stop)

def remember (w : World) (n : Nat) (key : String) (permits : UInt32) (lifetime : Duration) :
    World :=
  w.modifyClient n fun c =>
    let earlier := (c.outstanding.get? key).getD []
    { c with outstanding := c.outstanding.insert key ((permits, lifetime) :: earlier) }

/-- Takes the latest permits off the stack of a key; an empty stack is dropped. -/
def takeLatest (w : World) (n : Nat) (key : String) : World × Option (UInt32 × Duration) :=
  match w.clients[n]?.bind fun c => c.outstanding.get? key with
  | some (latest :: rest) =>
    (w.modifyClient n fun c =>
      { c with
        outstanding :=
          if rest.isEmpty then c.outstanding.erase key else c.outstanding.insert key rest },
      some latest)
  | _ => (w, none)

def use (w : World) (n : Nat) : World := w.modifyClient n fun c => { c with users := c.users + 1 }

/-- Stops using a client. With its last user all its watchdogs stop. -/
def letGo (w : World) (n : Nat) : World × Orders :=
  let w := w.modifyClient n fun c => { c with users := c.users - 1 }
  match w.clients[n]? with
  | some c => (w, if c.users = 0 then c.renewals.entries.map fun e => .stop e.2 else [])
  | none => (w, [])

/-- The lease of the lock that the scenario holds on to. -/
def lease? (w : World) : Option Duration := w.clients[0]?.map (·.lease)

def useController (w : World) : World × Option Controller :=
  match w.controller with
  | none => (w, none)
  | some c =>
    match c.wiring.lockClient? with
    | some n => (w.use n, some c)
    | none => (w, some c)

/-- Replaces the controller. -/
def setController (w : World) (c : Controller) : World × Orders :=
  let (w', orders) := match w.controller.bind (·.wiring.lockClient?) with
    | some n => w.letGo n
    | none => (w, [])
  ({ w' with controller := some c }, orders)

/-- A controller over a client of its own, whose substitutes are local except for the lock. -/
def setRemoteController (w : World) (settings : Settings) (flags degraded : Bool) :
    World × Orders :=
  let n := w.clients.length
  let client : Client := ⟨settings.lockLease, 1, .empty, .empty⟩
  { w with clients := w.clients ++ [client] }.setController
    { policy := ⟨settings, flags, false, degraded, degraded, degraded⟩
      wiring :=
        { rate := .remote n
          lock := .remote n
          permits := .remote n
          spareRate := .store .primary .off
          spareLock := .unreachable
          sparePermits := .store .primary .off
          flags := .remote n
          audience := .hub
          lease := settings.lockLease } }

/-- What happens to something owed by a task that is dropped: a release is carried out by a task of
its own, which uses the client of its lock until then. -/
def forfeit (w : World) : Pledge → World × Orders
  | .release wiring r =>
    match r, wiring.lockClient? with
    | .lock _ _, some n =>
      (w.use n,
        [.start none ((wiring.run r.program).bind fun _ => .settle (.done (.finished .null)))
          [.letGo n]])
    | _, _ => (w, [.start none ((wiring.run r.program).bind fun _ => .done (.finished .null)) []])
  | .free side held => w.free side held
  | .letGo n => w.letGo n

def keepNamed (w : World) (name : String) (held : Held) : World × Orders :=
  let (w', orders) := match w.named.get? name with
    | some old => w.free .primary old
    | none => (w, [])
  ({ w' with named := w'.named.insert name held }, orders)

def releaseNamed (w : World) (name : String) : World × Orders × Bool :=
  match w.named.get? name with
  | some held =>
    let (w, orders) := { w with named := w.named.erase name }.free .primary held
    (w, orders, true)
  | none => (w, [], false)

def counts (s : Local.Store) : List Nat :=
  [s.buckets.size, s.pools.size, s.latches.size, s.holders.size]

def receive (w : World) (name : String) : World × Answer :=
  match w.subscriptions.get? name with
  | none => (w, .null)
  | some s =>
    let (s, r) := w.hub.receive s
    ({ w with subscriptions := w.subscriptions.insert name s }, .receipt r)

/-- The events in the lines of the log. -/
def loggedEvents (w : World) : List Event :=
  w.log.filterMap fun line => (Event.form.ofLine line).toOption

/-- Carries out a step that answers at once. -/
def act (w : World) (now : Nat) : Act → World × Orders × Answer
  | .available key side =>
    (w, [], match (w.store side).available? key with
      | some n => .nat n
      | none => .null)
  | .counts side => (w, [], .nats (counts (w.store side)))
  | .sweep after =>
    let t := now + after.nanos
    ({ w with primary := w.primary.sweep t }, [], .nat (w.primary.swept t))
  | .startReaper every =>
    let (w, orders, tag) := w.startService (.reaper now every)
    ({ w with reaper := some tag }, orders, .null)
  | .stopReaper => ({ w with reaper := none }, w.reaper.toList.map .stop, .bool w.reaper.isSome)
  | .keepNamed name held =>
    let (w, orders) := w.keepNamed name held
    (w, orders, .null)
  | .releaseNamed name =>
    let (w, orders, found) := w.releaseNamed name
    (w, orders, .bool found)
  | .addCandidate c => ({ w with ledger := w.ledger.add c }, [], .null)
  | .addTables slot firstId count =>
    ({ w with ledger := w.ledger.addTables slot firstId count }, [], .null)
  | .query slot => (w, [], .candidates (w.ledger.query slot))
  | .create c user now =>
    let (l, r) := w.ledger.create (.take c user now)
    ({ w with ledger := l }, [], .created r)
  | .entries withTimes => (w, [], .ledger ⟨w.ledger.entries, withTimes⟩)
  | .occupied => (w, [], .occupied (w.ledger.entries.map (·.candidate)))
  | .setFlag name enabled => ({ w with flags := w.flags.insert name enabled }, [], .null)
  | .getFlag name => (w, [], .bool ((w.flags.get? name).getD true))
  | .subscribe name restaurant =>
    let (h, s) := w.hub.subscribe restaurant
    ({ w with hub := h, subscriptions := w.subscriptions.insert name s }, [], .null)
  | .unsubscribe name =>
    ({ w with subscriptions := w.subscriptions.erase name }, [],
      .bool (w.subscriptions.contains name))
  | .send audience e => (w.publish e audience, [], .null)
  | .removeChannel restaurant => ({ w with hub := w.hub.remove restaurant }, [], .null)
  | .receive name =>
    let (w, a) := w.receive name
    (w, [], a)
  | .takeEvents => ({ w with log := [] }, [], .events w.loggedEvents)
  | .setController c =>
    let (w, orders) := w.setController c
    (w, orders, .lease c.policy.settings.lockLease)
  | .setRemoteController settings flags degraded =>
    let (w, orders) := w.setRemoteController settings flags degraded
    (w, orders, .bools [true, true, true])
  | .setFault point f =>
    ({ w with
        faults := match f with
          | some f => w.faults.insert point f
          | none => w.faults.erase point }, [], .null)
  | .takeTrace => ({ w with trace := [] }, [], .lines w.trace)
  | .showMeasures => (w, [], .measures w.measures)
  | .renewing =>
    (w, [], if w.hasLock then .nat ((w.clients[0]?.map (·.renewals.size)).getD 0) else .noLock)
  | .lease => (w, [], if w.hasLock then .duration (w.lease?.getD .zero) else .noLock)
  | .dropLock =>
    if w.hasLock then
      let (w, orders) := w.letGo 0
      ({ w with hasLock := false }, orders, .bool true)
    else (w, [], .bool false)
  | .script name replies =>
    let scripts := w.server.scripts.insert name replies
    ({ w with server := { w.server with scripts } }, [], .null)
  | .takeCommands =>
    ({ w with server := { w.server with records := [] } }, [], .commands w.server.records)

/-- Waits until the instant `t`, unless it has come. -/
def waitUntil (w : World) (now t : Nat) : World × Orders × Look Unit Nat :=
  (w, [], if Clock.tick t ≤ now then .answered () else .blocked t)

/-- The next command for the server, if there is one. -/
def nextCommand (w : World) : World × Orders × Look (Ticket × Remote.Command) Unit :=
  match w.server.queue with
  | c :: rest => ({ w with server := { w.server with queue := rest } }, [], .answered c)
  | [] => (w, [], .blocked ())

/-- The first look at an operation that may block. -/
def begin (w : World) (now ticket : Nat) : (op : Wait) → World × Orders × Look op.Answer op.Pending
  | .sleep d => w.waitUntil now (now + d.nanos)
  | .sleepUntil t => w.waitUntil now t
  | .attempt side a =>
    let (s, p) := (w.store side).begin ticket now a
    let (w, look) := w.settleAttempt side a ticket s p
    (w, [], look)
  | .exchange c =>
    ({ w with server := { w.server with queue := w.server.queue ++ [(ticket, c)] } },
      [.wake Wait.commandSignal], .blocked ticket)
  | .nextCommand => w.nextCommand

/-- A later look at a blocked operation. -/
def resume (w : World) (now : Nat) :
    (op : Wait) → op.Pending → World × Orders × Look op.Answer op.Pending
  | .sleep _, (t : Nat) => w.waitUntil now t
  | .sleepUntil _, (t : Nat) => w.waitUntil now t
  | .attempt side a, (t, p) =>
    let (s, woken, progress) := (w.store side).resume t now p
    let (w, look) := w.settleAttempt side a t s progress
    (w, wakeAll woken, look)
  | .exchange _, (t : Nat) =>
    match w.server.replies.get? t with
    | some r =>
      ({ w with server := { w.server with replies := w.server.replies.erase t } }, [], .answered r)
    | none => (w, [], .blocked t)
  | .nextCommand, _ => w.nextCommand

/-- Forgets a blocked operation. A command that was sent is still handled. -/
def cancel (w : World) : (op : Wait) → op.Pending → World × Orders
  | .attempt side _, (t, p) =>
    let (s, woken) := (w.store side).cancel t p
    (w.setStore side s, wakeAll woken)
  | .sleep _, _ => (w, [])
  | .sleepUntil _, _ => (w, [])
  | .exchange _, _ => (w, [])
  | .nextCommand, _ => (w, [])

/-- Carries out an operation that answers at once. -/
def carryOut (w : World) (now : Nat) : (d : Deed) → World × Orders × d.Answer
  | .record c =>
    let (s, r) := w.server.record c
    ({ w with server := s }, [], r)
  | .deliver t c r =>
    let (s, woken) := w.server.deliver t c r
    ({ w with server := s }, wakeAll woken, ())
  | .clock => (w, [], now)
  | .wallClock => (w, [], (default : DateTime))
  | .newOwner => ({ w with owners := w.owners + 1 }, [], ownerId w.owners)
  | .watched points line =>
    let (w, f) := w.watched points line
    (w, [], f)
  | .isHeldBy side key owner => (w, [], (w.store side).isHeldBy key owner)
  | .unlock side key owner => w.unlock side key owner
  | .giveBack side key =>
    let (w, orders) := w.giveBack side key now
    (w, orders, ())
  | .free side held =>
    let (w, orders) := w.free side held
    (w, orders, ())
  | .flag name => (w, [], (w.flags.get? name).getD true)
  | .query slot => (w, [], w.ledger.query slot)
  | .create entry =>
    let (l, r) := w.ledger.create entry
    ({ w with ledger := l }, [], r)
  | .publish audience e => (w.publish e audience, [], ())
  | .note n => ({ w with measures := w.measures.note n }, [], ())
  | .reap => (w.reap now, [], ())
  | .watch n lock owner lease =>
    let (w, orders) := w.watch n lock owner lease
    (w, orders, ())
  | .unwatch n lock owner =>
    let (w, orders) := w.unwatch n lock owner
    (w, orders, ())
  | .remember n key permits lifetime => (w.remember n key permits lifetime, [], ())
  | .takeLatest n key =>
    let (w, latest) := w.takeLatest n key
    (w, [], latest)
  | .useLock => if w.hasLock then (w.use 0, [], w.lease?) else (w, [], none)
  | .useController =>
    let (w, c) := w.useController
    (w, [], c)
  | .letGo n =>
    let (w, orders) := w.letGo n
    (w, orders, ())
  | .act a => w.act now a

end World

end Turnstile.Sim
