import Turnstile.Proofs.Remote.Lease

/-!
# The watchdogs of a lock

Any number of sections over the fair lock of one client, and the watchdogs that keep its leases
alive. A `Step` of a `Yard` is one node of one task, a section that is dropped, or a task that
somebody stops; the server may answer anything, and so may everybody else who is waited for.

`Guarded` is what every step keeps: the table of the client has an entry for each section whose
lease is to be kept alive, and for nobody else, and every watchdog that was not stopped is in the
table.
-/

namespace Turnstile.Sim

open Remote (Name)

namespace World

/-- The tag of the watchdog that the table of client `n` has for a lock and its owner. -/
def tag? (w : World) (n : Nat) (lock : Name) (u : Ulid) : Option Nat :=
  w.clients[n]?.bind fun c => c.renewals.get? (lock, u)

/-- If client `n` was there it still is, and its table is the same. -/
structure Alike (n : Nat) (w w' : World) : Prop where
  client : n < w.clients.length → n < w'.clients.length
  tag : ∀ lock u, w'.tag? n lock u = w.tag? n lock u

variable {n m : Nat} {w w' : World}

theorem Alike.of_clients (h : w'.clients = w.clients) : Alike n w w' :=
  ⟨fun hn => h ▸ hn, fun lock u => by simp only [tag?, h]⟩

/-- What a client has besides its table does not matter. -/
theorem Alike.modify {f : Client → Client} (h : ∀ c, (f c).renewals = c.renewals) :
    Alike n w (w.modifyClient m f) := by
  refine ⟨fun hn => by simpa [modifyClient] using hn, fun lock u => ?_⟩
  unfold tag? modifyClient
  rw [List.getElem?_modify]
  cases w.clients[n]? with
  | none => simp
  | some c =>
    by_cases hm : m = n
    · simp [hm, h]
    · simp [hm]

theorem clients_setStore (side : Side) (s : Local.Store) :
    (w.setStore side s).clients = w.clients := by
  cases side with
  | primary => rfl
  | separate => rfl

theorem clients_takeFault (points : List String) :
    (w.takeFault points).1.clients = w.clients := by
  unfold takeFault
  split
  · rfl
  · split
    · rfl
    · split <;> rfl

theorem clients_settleAttempt (side : Side) (a : Local.Attempt) (t : Ticket) (s : Local.Store)
    (p : Local.Progress) : (w.settleAttempt side a t s p).1.clients = w.clients := by
  unfold settleAttempt
  split
  · unfold reportGrant
    split <;> exact clients_setStore side s
  · exact clients_setStore side s
  · exact clients_setStore side s

theorem clients_nextCommand : w.nextCommand.1.clients = w.clients := by
  unfold nextCommand
  split <;> rfl

theorem clients_begin (now ticket : Nat) (op : Wait) :
    (w.begin now ticket op).1.clients = w.clients := by
  cases op with
  | sleep d => rfl
  | sleepUntil t => rfl
  | attempt side a => exact clients_settleAttempt side a _ _ _
  | exchange c => rfl
  | nextCommand => exact clients_nextCommand

theorem clients_resume (now : Nat) (op : Wait) (p : op.Pending) :
    (w.resume now op p).1.clients = w.clients := by
  cases op with
  | sleep d => rfl
  | sleepUntil t => rfl
  | attempt side a => exact clients_settleAttempt side a _ _ _
  | exchange c =>
    obtain ⟨r, hr⟩ : ∃ r, w.server.replies.get? p = r := ⟨_, rfl⟩
    cases r with
    | none => simp [resume, hr]
    | some r => simp [resume, hr]
  | nextCommand => exact clients_nextCommand

theorem alike_takeLatest (key : String) : Alike n w (w.takeLatest m key).1 := by
  unfold takeLatest
  split
  · exact .modify fun _ => rfl
  · exact .of_clients rfl

/-- The order starts no task. -/
def IsQuiet : Order operations Pledge Ending → Prop
  | .start _ _ _ => False
  | _ => True

theorem isQuiet_of_mem_wakeAll {ts : List Ticket} {o : Order operations Pledge Ending}
    (h : o ∈ wakeAll ts) : IsQuiet o := by
  obtain ⟨t, -, rfl⟩ := List.mem_map.1 h
  trivial

theorem letGo_isQuiet (m : Nat) {o : Order operations Pledge Ending} (h : o ∈ (w.letGo m).2) :
    IsQuiet o := by
  unfold letGo at h
  dsimp only at h
  split at h
  · split at h
    · obtain ⟨e, -, rfl⟩ := List.mem_map.1 h
      trivial
    · cases h
  · cases h

theorem alike_letGo (m : Nat) : Alike n w (w.letGo m).1 := by
  unfold letGo
  dsimp only
  split <;> exact .modify fun _ => rfl

/-- An operation beside the locks leaves the tables alone and starts no task. -/
theorem carryOut_isAside {d : Deed} (h : Op.IsAside (.deed d)) (w : World) (n now : Nat) :
    Alike n w (w.carryOut now d).1 ∧ ∀ o ∈ (w.carryOut now d).2.1, IsQuiet o := by
  cases d with
  | newOwner => cases h
  | watch m lock owner lease => cases h
  | unwatch m lock owner => cases h
  | useLock => cases h
  | useController => cases h
  | letGo m => exact ⟨alike_letGo m, fun o ho => letGo_isQuiet m ho⟩
  | act a => cases h
  | deliver t c r => exact ⟨.of_clients rfl, fun o ho => isQuiet_of_mem_wakeAll ho⟩
  | unlock side key owner =>
    exact ⟨.of_clients (clients_setStore _ _), fun o ho => isQuiet_of_mem_wakeAll ho⟩
  | giveBack side key =>
    exact ⟨.of_clients (clients_setStore _ _), fun o ho => isQuiet_of_mem_wakeAll ho⟩
  | free side held =>
    exact ⟨.of_clients (clients_setStore _ _), fun o ho => isQuiet_of_mem_wakeAll ho⟩
  | watched points line => exact ⟨.of_clients (clients_takeFault _), nofun⟩
  | publish audience e => exact ⟨.of_clients (by cases audience <;> rfl), nofun⟩
  | remember m key permits lifetime => exact ⟨.modify fun _ => rfl, nofun⟩
  | takeLatest m key => exact ⟨alike_takeLatest key, nofun⟩
  | _ => exact ⟨.of_clients rfl, nofun⟩

theorem tag?_watch (hn : n < w.clients.length) (lock lock' : Name) (u u' : Ulid)
    (lease : Duration) :
    (w.watch n lock u lease).1.tag? n lock' u' =
      if (lock', u') = (lock, u) then some w.tags else w.tag? n lock' u' := by
  simp only [tag?, watch, startService, modifyClient, List.getElem?_modify_eq,
    List.getElem?_eq_getElem hn]
  exact Table.get?_insert _ _ _ _

theorem tag?_unwatch (lock lock' : Name) (u u' : Ulid) :
    (w.unwatch n lock u).1.tag? n lock' u' =
      if (lock', u') = (lock, u) then none else w.tag? n lock' u' := by
  simp only [tag?, unwatch, modifyClient, List.getElem?_modify_eq]
  cases w.clients[n]? with
  | none => simp
  | some c => exact Table.get?_erase _ _ _

theorem length_watch (lock : Name) (u : Ulid) (lease : Duration) :
    (w.watch n lock u lease).1.clients.length = w.clients.length :=
  List.length_modify ..

theorem length_unwatch (lock : Name) (u : Ulid) :
    (w.unwatch n lock u).1.clients.length = w.clients.length :=
  List.length_modify ..

theorem watch_orders (lock : Name) (u : Ulid) (lease : Duration) :
    (w.watch n lock u lease).2 =
      .start (some w.tags) (.done (.again (.watchdog n lock u lease))) [] ::
        (w.tag? n lock u).toList.map .stop :=
  rfl

theorem unwatch_orders (lock : Name) (u : Ulid) :
    (w.unwatch n lock u).2 = (w.tag? n lock u).toList.map .stop :=
  rfl

end World

/-! ### Sections and watchdogs -/

/-- Work under a lock of the client, from its beginning on. -/
structure Section where
  key : String
  strand : Strand operations Pledge Ending
  /-- What it asked and what it was answered, oldest first. -/
  trace : List (Asked operations)

structure Keeper where
  tag : Option Nat
  strand : Strand operations Pledge Ending
  stopped : Bool

structure Yard where
  world : World
  sections : List Section
  keepers : List Keeper

def Section.stage (s : Section) : Stage := s.trace.foldl Stage.next .outside

/-- The tasks in the background after an order. -/
def obey (ks : List Keeper) : Order operations Pledge Ending → List Keeper
  | .wake _ => ks
  | .start tag p owed => ks ++ [⟨tag, ⟨p, owed⟩, false⟩]
  | .stop tag => ks.map fun k => if k.tag = some tag then { k with stopped := true } else k

/-- One node of a task: what it asks and is answered, the world after it, and its orders. What may
block is answered in any way, and a new owner is none of the old ones. -/
inductive Node (old : Ulid → Prop) (w : World) (s : Strand operations Pledge Ending) :
    List (Asked operations) → World → Orders → Strand operations Pledge Ending → Prop
  | inner {s' : Strand operations Pledge Ending} :
    s.Step Pledge.code [] s' → Node old w s [] w [] s'
  | wait {op : Wait} {a : op.Answer} {s' : Strand operations Pledge Ending} :
    s.Step Pledge.code [⟨.wait op, a⟩] s' → Node old w s [⟨.wait op, a⟩] w [] s'
  | owner {u : Ulid} {s' : Strand operations Pledge Ending} : ¬ old u →
    s.Step Pledge.code [⟨.deed .newOwner, u⟩] s' → Node old w s [⟨.deed .newOwner, u⟩] w [] s'
  | deed {now : Nat} {d : Deed} {s' : Strand operations Pledge Ending} : d ≠ .newOwner →
    s.Step Pledge.code [⟨.deed d, (w.carryOut now d).2.2⟩] s' →
    Node old w s [⟨.deed d, (w.carryOut now d).2.2⟩] (w.carryOut now d).1 (w.carryOut now d).2.1 s'

namespace Yard

/-- Some section made this owner up. -/
def Old (y : Yard) (u : Ulid) : Prop := ∃ s ∈ y.sections, ∃ e ∈ s.trace, made? e = some u

/-- The smallest step of sections over client `n`. -/
inductive Step (n : Nat) : Yard → Yard → Prop
  | enter (y : Yard) {α : Type} (w : Wiring) (key : SlotKey) (wait : Duration)
    (work : Admission.Routine (Except AdmissionError α)) :
    w.lock = .remote n → Admission.IsAside work →
    Step n y
      { y with sections := y.sections ++ [⟨key.text, ⟨sectionCode w key wait work, []⟩, []⟩] }
  | work (y : Yard) (i : Nat) (s : Section) {t : List (Asked operations)} {w : World}
    {orders : Orders} {s' : Strand operations Pledge Ending} :
    y.sections[i]? = some s → Node y.Old y.world s.strand t w orders s' →
    Step n y
      { world := w
        sections := y.sections.set i { s with strand := s', trace := s.trace ++ t }
        keepers := orders.foldl obey y.keepers }
  /-- A section may be dropped wherever it waits, and goes on with the release of its lock. -/
  | drop (y : Yard) (i : Nat) (s : Section) {op : Wait} {w : World}
    {s' : Strand operations Pledge Ending} :
    y.sections[i]? = some s → s.strand.call? = some (.wait op) → Left n s.strand.owed s' →
    World.Alike n y.world w →
    Step n y { y with world := w, sections := y.sections.set i { s with strand := s' } }
  | keep (y : Yard) (i : Nat) (k : Keeper) {t : List (Asked operations)} {w : World}
    {orders : Orders} {s' : Strand operations Pledge Ending} :
    y.keepers[i]? = some k → k.stopped = false → Node y.Old y.world k.strand t w orders s' →
    Step n y
      { y with
        world := w
        keepers := orders.foldl obey (y.keepers.set i { k with strand := s' }) }
  | again (y : Yard) (i : Nat) (k : Keeper) (sv : Service) (owed : List Pledge) :
    y.keepers[i]? = some k → k.stopped = false → k.strand = ⟨.done (.again sv), owed⟩ →
    Step n y { y with keepers := y.keepers.set i { k with strand := ⟨sv.round, owed⟩ } }
  | halt (y : Yard) (i : Nat) (k : Keeper) : y.keepers[i]? = some k →
    Step n y { y with keepers := y.keepers.set i { k with stopped := true } }
  /-- Whatever others do who do not use the lock of this client. -/
  | stir (y : Yard) (w : World) : World.Alike n y.world w → Step n y { y with world := w }

/-- What a task that waits does to the world, at first and whenever it looks again, is a step. -/
theorem Step.begins {n : Nat} (y : Yard) (now ticket : Nat) (op : Wait) :
    Step n y { y with world := (y.world.begin now ticket op).1 } :=
  .stir y _ (.of_clients (World.clients_begin now ticket op))

theorem Step.resumes {n : Nat} (y : Yard) (now : Nat) (op : Wait) (p : op.Pending) :
    Step n y { y with world := (y.world.resume now op p).1 } :=
  .stir y _ (.of_clients (World.clients_resume now op p))

/-- The yards that can come about in the world `w`. -/
inductive Reach (n : Nat) (w : World) : Yard → Prop
  | start : Reach n w ⟨w, [], []⟩
  | step {y y' : Yard} : Reach n w y → Step n y y' → Reach n w y'

end Yard

/-! ### Watchdogs -/

/-- A watchdog pauses and renews the lease of its lock. -/
inductive Renewal (lock : Name) (u : Ulid) : Op → Prop
  | pause (d : Duration) : Renewal lock u (.wait (.sleep d))
  | renew (args : List Remote.Argument) :
    Renewal lock u (.wait (.exchange (.run .renew [lock] (.owner u :: args))))
  | load : Renewal lock u (.wait (.exchange (.load .renew)))

/-- However a watchdog is answered, it does nothing but renew, and goes on as itself or ends. -/
abbrev Renews (n : Nat) (lock : Name) (u : Ulid) : Strand operations Pledge Ending → Prop :=
  Strand.Always Pledge.code (fun φ _ => φ) (fun _ _ op => Renewal lock u op)
    (fun e _ owed => owed = [] ∧ ∀ sv, e = .again sv → ∃ lease, sv = .watchdog n lock u lease) ()

variable {n : Nat} {lock : Name} {u : Ulid} {lease : Duration}

theorem renews_start : Renews n lock u ⟨.done (.again (.watchdog n lock u lease)), []⟩ :=
  .done ⟨rfl, fun _ h => ⟨lease, (Ending.again.inj h).symm⟩⟩

theorem renews_round : Renews n lock u ⟨(Service.watchdog n lock u lease).round, []⟩ := by
  have hgo (goesOn : Bool) : Renews n lock u
      ⟨.done (if goesOn then .again (.watchdog n lock u lease) else .finished .null), []⟩ := by
    cases goesOn with
    | true => exact renews_start
    | false => exact .done ⟨rfl, nofun⟩
  refine .call (.pause _) fun _ => ?_
  show Renews n lock u ⟨(Code.remote n (Program.bind _ _)).bind _, []⟩
  rw [Code.remote_bind, Program.bind_assoc]
  refine (run_always (R := fun _ _ => True) (.renew _) .load (fun _ => rfl) (fun _ => trivial)
    (fun _ _ => rfl) fun _ => trivial).bind fun a _ owed ⟨_, ho⟩ => ?_
  subst ho
  cases a with
  | ok m => exact hgo _
  | error e => exact hgo true

/-- The task is a watchdog and is what the table has for its lock and owner. -/
def Keeper.Minds (k : Keeper) (n : Nat) (w : World) : Prop :=
  ∃ lock u g, k.tag = some g ∧ w.tag? n lock u = some g ∧ Renews n lock u k.strand

section

variable {k : Keeper} {ks : List Keeper} {w w' : World}

theorem Keeper.Minds.alike (h : k.Minds n w) (hw : World.Alike n w w') : k.Minds n w' := by
  obtain ⟨lock, u, g, hg, ht, hr⟩ := h
  exact ⟨lock, u, g, hg, by rw [hw.tag, ht], hr⟩

/-- Only the watchdog of one lock and owner minds what happens to their entry. -/
theorem Keeper.Minds.of_ne (h : k.Minds n w)
    (hw : ∀ lock' u', (lock', u') ≠ (lock, u) → w'.tag? n lock' u' = w.tag? n lock' u')
    (hk : ∀ g, w.tag? n lock u = some g → k.tag ≠ some g) : k.Minds n w' := by
  obtain ⟨lock', u', g, hg, ht, hr⟩ := h
  refine ⟨lock', u', g, hg, ?_, hr⟩
  rw [hw lock' u', ht]
  intro he
  cases he
  exact hk g ht hg

/-- A task that goes on after one with the tag was stopped is another one. -/
theorem mem_obey_stop {g : Nat} (hk : k ∈ obey ks (.stop g)) (hs : k.stopped = false) :
    k ∈ ks ∧ k.tag ≠ some g := by
  obtain ⟨k', hk', rfl⟩ := List.mem_map.1 hk
  by_cases hg : k'.tag = some g
  · simp [hg] at hs
  · rw [if_neg hg]
    exact ⟨hk', hg⟩

/-- A task that goes on after quiet orders was there before. -/
theorem mem_foldl_obey_quiet {orders : Orders} (h : ∀ o ∈ orders, World.IsQuiet o)
    (hk : k ∈ orders.foldl obey ks) (hs : k.stopped = false) : k ∈ ks := by
  induction orders generalizing ks with
  | nil => exact hk
  | cons o rest ih =>
    rw [List.forall_mem_cons] at h
    have hk' := ih h.2 hk
    cases o with
    | wake signal => exact hk'
    | start tag p owed => cases h.1
    | stop tag => exact (mem_obey_stop hk' hs).1

theorem mem_foldl_obey_stops {old : Option Nat} (hk : k ∈ (old.toList.map .stop).foldl obey ks)
    (hs : k.stopped = false) : k ∈ ks ∧ ∀ g, old = some g → k.tag ≠ some g := by
  cases old with
  | none => exact ⟨hk, nofun⟩
  | some g =>
    obtain ⟨hm, ht⟩ := mem_obey_stop hk hs
    refine ⟨hm, fun g' hg' => ?_⟩
    cases hg'
    exact ht

end

/-! ### The table and the sections -/

namespace Stage

variable {φ : Stage}

theorem owner?_of_watched? (h : φ.watched? = some u) : φ.owner? = some u := by
  cases φ with
  | kept v => exact h
  | freed v => exact h
  | _ => cases h

theorem granted?_of_watched? (h : φ.watched? = some u) : φ.granted? = some u := by
  cases φ with
  | kept v => exact h
  | freed v => exact h
  | _ => cases h

theorem asking_next (e : Asked operations) :
    ((asking u).next e).owner? = some u ∧ ((asking u).next e).watched? = none := by
  cases h : grant? e with
  | none => simp [next, h, owner?, watched?]
  | some p => simp [next, h, owner?, watched?]

theorem kept_next (e : Asked operations) :
    ((kept u).next e).owner? = some u ∧ ((kept u).next e).watched? = some u := by
  cases h : free? e with
  | none => simp [next, h, owner?, watched?]
  | some p => simp [next, h, owner?, watched?]

end Stage

/-- An answer that the section waits for changes neither its owner nor its watchdog, and no more
does what is done beside the locks. -/
theorem Allowed.same {key : String} {φ : Stage} {op : Op} (h : Allowed n key φ op)
    (hop : ∀ d, op = .deed d → op.IsAside) (a : operations.Answer op) :
    (φ.next ⟨op, a⟩).owner? = φ.owner? ∧ (φ.next ⟨op, a⟩).watched? = φ.watched? := by
  cases h with
  | owner => cases hop _ rfl
  | acquire u args => exact Stage.asking_next _
  | watch u lease => cases hop _ rfl
  | release u => exact Stage.kept_next _
  | unwatch u => cases hop _ rfl
  | aside hφ ha =>
    rw [Stage.next_of_isAside hφ ha]
    exact ⟨rfl, rfl⟩

theorem Allowed.isOpen {key : String} {φ : Stage} {op : Wait} (h : Allowed n key φ (.wait op)) :
    φ.IsOpen := by
  cases h with
  | acquire u args => trivial
  | release u => trivial
  | aside hφ _ => exact hφ

theorem Allowed.deed {key : String} {φ : Stage} {d : Deed} (h : Allowed n key φ (.deed d)) :
    φ = .outside ∧ d = .newOwner ∨
      (∃ u lease, φ = .granted u ∧ d = .watch n (.lock key) u lease) ∨
      (∃ u, φ = .freed u ∧ d = .unwatch n (.lock key) u) ∨ Op.IsAside (.deed d) := by
  cases h with
  | owner => exact .inl ⟨rfl, rfl⟩
  | watch u lease => exact .inr (.inl ⟨u, lease, rfl, rfl⟩)
  | unwatch u => exact .inr (.inr (.inl ⟨u, rfl, rfl⟩))
  | aside hφ ha => exact .inr (.inr (.inr ha))

/-- The table has entries for the sections whose leases are to be kept alive, and every watchdog
that goes on is in the table. -/
structure Guarded (n : Nat) (y : Yard) : Prop where
  client : n < y.world.clients.length
  keeps : ∀ (i : Nat) (s : Section), y.sections[i]? = some s →
    Keeps n s.key (fun _ φ _ => φ.IsOpen) s.stage s.strand
  recorded : ∀ (i : Nat) (s : Section), y.sections[i]? = some s → Recorded s.key s.stage s.trace
  apart : ∀ (i j : Nat) (s s' : Section) (u : Ulid), y.sections[i]? = some s →
    y.sections[j]? = some s' → s.stage.owner? = some u → s'.stage.owner? = some u → i = j
  entry : ∀ lock u, (y.world.tag? n lock u).isSome ↔
    ∃ (i : Nat) (s : Section), y.sections[i]? = some s ∧ lock = .lock s.key ∧
      s.stage.watched? = some u
  minds : ∀ k ∈ y.keepers, k.stopped = false → k.Minds n y.world

namespace Guarded

variable {y y' : Yard} {i : Nat} {s s' : Section} {k : Keeper} {ks : List Keeper} {w' : World}

theorem start {w : World} (hn : n < w.clients.length) (hw : ∀ lock u, w.tag? n lock u = none) :
    Guarded n ⟨w, [], []⟩ where
  client := hn
  keeps := nofun
  recorded := nofun
  apart := nofun
  entry lock u := by simp [hw]
  minds := nofun

/-- What happens when one section moves on, if the entries are still those of the sections. -/
theorem set (h : Guarded n y) (hi : y.sections[i]? = some s)
    (hkeeps : Keeps n s.key (fun _ φ _ => φ.IsOpen) s'.stage s'.strand) (hkey : s'.key = s.key)
    (hclient : n < w'.clients.length)
    (hrecorded : Recorded s.key s'.stage s'.trace)
    (howner : ∀ u, s'.stage.owner? = some u → s.stage.owner? = some u ∨ ¬ y.Old u)
    (hentry : ∀ lock u, (w'.tag? n lock u).isSome ↔
      lock = .lock s.key ∧ s'.stage.watched? = some u ∨
        (y.world.tag? n lock u).isSome ∧ ¬ (lock = .lock s.key ∧ s.stage.owner? = some u))
    (hminds : ∀ k ∈ ks, k.stopped = false → k.Minds n w') :
    Guarded n ⟨w', y.sections.set i s', ks⟩ := by
  have hold {j : Nat} {x : Section} {u : Ulid} (hj : y.sections[j]? = some x)
      (hu : x.stage.owner? = some u) : y.Old u := by
    obtain ⟨e, he, hm⟩ := ((h.recorded j x hj).made u).2 hu
    exact ⟨x, List.mem_of_getElem? hj, e, he, hm⟩
  have hself : (y.sections.set i s')[i]? = some s' := by
    rw [List.getElem?_set_self (List.getElem?_eq_some_iff.1 hi).1]
  refine ⟨hclient, fun j x hj => ?keeps, fun j x hj => ?recorded,
    fun j j' x x' u hj hj' hu hu' => ?apart, fun lock u => ?entry, hminds⟩
  case keeps =>
    rcases getElem?_set_cases hj with ⟨rfl, rfl⟩ | ⟨-, hj⟩
    · rw [hkey]
      exact hkeeps
    · exact h.keeps j x hj
  case recorded =>
    rcases getElem?_set_cases hj with ⟨rfl, rfl⟩ | ⟨-, hj⟩
    · rw [hkey]
      exact hrecorded
    · exact h.recorded j x hj
  case apart =>
    -- an owner that the section has not made up just now was its own before
    have hone {k : Nat} {x : Section} {u : Ulid} (hk : y.sections[k]? = some x)
        (hu : x.stage.owner? = some u) (hs' : s'.stage.owner? = some u) : k = i := by
      rcases howner u hs' with hs | hn
      · exact h.apart _ _ _ _ u hk hi hu hs
      · exact absurd (hold hk hu) hn
    rcases getElem?_set_cases hj with ⟨hji, hx⟩ | ⟨-, hx⟩
    · rcases getElem?_set_cases hj' with ⟨hji', -⟩ | ⟨-, hx'⟩
      · rw [hji, hji']
      · rw [hji, hone hx' hu' (hx ▸ hu)]
    · rcases getElem?_set_cases hj' with ⟨hji', hx'⟩ | ⟨-, hx'⟩
      · rw [hji', hone hx hu (hx' ▸ hu')]
      · exact h.apart _ _ _ _ u hx hx' hu hu'
  case entry =>
    rw [hentry]
    constructor
    · rintro (⟨hl, hu⟩ | ⟨ht, hn⟩)
      · exact ⟨i, s', hself, hkey ▸ hl, hu⟩
      · obtain ⟨j, x, hj, hl, hu⟩ := (h.entry lock u).1 ht
        have hji : j ≠ i := by
          rintro rfl
          rw [hi] at hj
          cases hj
          exact hn ⟨hl, Stage.owner?_of_watched? hu⟩
        refine ⟨j, x, ?_, hl, hu⟩
        rw [List.getElem?_set_ne hji.symm]
        exact hj
    · rintro ⟨j, x, hj, hl, hu⟩
      rcases getElem?_set_cases hj with ⟨rfl, rfl⟩ | ⟨hji, hj⟩
      · exact .inl ⟨hkey ▸ hl, hu⟩
      · refine .inr ⟨(h.entry lock u).2 ⟨j, x, hj, hl, hu⟩, fun hs => hji ?_⟩
        exact h.apart _ _ _ _ u hj hi (Stage.owner?_of_watched? hu) hs.2

theorem fewer (h : Guarded n y) (hks : ∀ k ∈ ks, k.stopped = false → k ∈ y.keepers) :
    Guarded n { y with keepers := ks } where
  client := h.client
  keeps := h.keeps
  recorded := h.recorded
  apart := h.apart
  entry := h.entry
  minds k hk hs := h.minds k (hks k hk hs) hs

/-- A section moves on under the same owner, and with a watchdog as before. -/
theorem still (h : Guarded n y) (hi : y.sections[i]? = some s)
    (hkeeps : Keeps n s.key (fun _ φ _ => φ.IsOpen) s'.stage s'.strand) (hkey : s'.key = s.key)
    (hw : World.Alike n y.world w')
    (hrecorded : Recorded s.key s'.stage s'.trace) (howner : s'.stage.owner? = s.stage.owner?)
    (hwatched : s'.stage.watched? = s.stage.watched?) :
    Guarded n ⟨w', y.sections.set i s', y.keepers⟩ := by
  refine h.set hi hkeeps hkey (hw.client h.client) hrecorded (fun u hu => .inl (howner ▸ hu))
    (fun lock u => ?_) fun k hk hs => (h.minds k hk hs).alike hw
  rw [hw.tag, hwatched]
  constructor
  · intro ht
    by_cases hown : lock = .lock s.key ∧ s.stage.owner? = some u
    · obtain ⟨j, x, hj, hl, hu⟩ := (h.entry lock u).1 ht
      cases h.apart j i x s u hj hi (Stage.owner?_of_watched? hu) hown.2
      rw [hi] at hj
      cases hj
      exact .inl ⟨hown.1, hu⟩
    · exact .inr ⟨ht, hown⟩
  · rintro (⟨hl, hu⟩ | ⟨ht, -⟩)
    · exact (h.entry lock u).2 ⟨i, s, hi, hl, hu⟩
    · exact ht

theorem owner (h : Guarded n y) (hi : y.sections[i]? = some s)
    (hkeeps : Keeps n s.key (fun _ φ _ => φ.IsOpen) s'.stage s'.strand) (hkey : s'.key = s.key)
    (hrecorded : Recorded s.key s'.stage s'.trace) (hφ : s.stage = .outside)
    (hφ' : s'.stage = .asking u) (hu : ¬ y.Old u) :
    Guarded n ⟨y.world, y.sections.set i s', y.keepers⟩ := by
  refine h.set hi hkeeps hkey h.client hrecorded (fun v hv => ?_) (fun lock v => ?_) h.minds
  · rw [hφ'] at hv
    cases hv
    exact .inr hu
  · simp [hφ, hφ', Stage.watched?, Stage.owner?]

/-- The watchdog of a lock that was just granted starts, and its entry is new. -/
theorem watch (h : Guarded n y) (hi : y.sections[i]? = some s)
    (hkeeps : Keeps n s.key (fun _ φ _ => φ.IsOpen) s'.stage s'.strand) (hkey : s'.key = s.key)
    (hrecorded : Recorded s.key s'.stage s'.trace) (hφ : s.stage = .granted u)
    (hφ' : s'.stage = .kept u) (lease : Duration) :
    Guarded n ⟨(y.world.watch n (.lock s.key) u lease).1, y.sections.set i s',
      (y.world.watch n (.lock s.key) u lease).2.foldl obey y.keepers⟩ := by
  refine h.set hi hkeeps hkey ?_ hrecorded (fun v hv => ?_) (fun lock v => ?_) fun k hk hs => ?_
  · rw [World.length_watch]
    exact h.client
  · rw [hφ'] at hv
    rw [hφ]
    exact .inl hv
  · rw [World.tag?_watch h.client, hφ, hφ']
    by_cases he : lock = .lock s.key ∧ v = u
    · obtain ⟨rfl, rfl⟩ := he
      simp [Stage.watched?]
    · rw [if_neg fun hp => he ⟨congrArg Prod.fst hp, congrArg Prod.snd hp⟩]
      grind [Stage.watched?, Stage.owner?]
  · rw [World.watch_orders, List.foldl_cons] at hk
    -- an older watchdog for the same lock and owner was told to stop, so `ht` keeps it apart
    obtain ⟨hk, ht⟩ := mem_foldl_obey_stops hk hs
    rcases List.mem_append.1 hk with hk | hk
    · refine (h.minds k hk hs).of_ne (fun lock v hne => ?_) ht
      rw [World.tag?_watch h.client, if_neg hne]
    · rw [List.mem_singleton.1 hk]
      exact ⟨_, u, _, rfl, by rw [World.tag?_watch h.client, if_pos rfl], renews_start⟩

/-- The watchdog of a lock that was released stops, and its entry is gone. -/
theorem unwatch (h : Guarded n y) (hi : y.sections[i]? = some s)
    (hkeeps : Keeps n s.key (fun _ φ _ => φ.IsOpen) s'.stage s'.strand) (hkey : s'.key = s.key)
    (hrecorded : Recorded s.key s'.stage s'.trace) (hφ : s.stage = .freed u)
    (hφ' : s'.stage = .closed u) :
    Guarded n ⟨(y.world.unwatch n (.lock s.key) u).1, y.sections.set i s',
      (y.world.unwatch n (.lock s.key) u).2.foldl obey y.keepers⟩ := by
  refine h.set hi hkeeps hkey ?_ hrecorded (fun v hv => ?_) (fun lock v => ?_) fun k hk hs => ?_
  · rw [World.length_unwatch]
    exact h.client
  · rw [hφ'] at hv
    rw [hφ]
    exact .inl hv
  · rw [World.tag?_unwatch, hφ, hφ']
    by_cases he : lock = .lock s.key ∧ v = u
    · obtain ⟨rfl, rfl⟩ := he
      simp [Stage.watched?, Stage.owner?]
    · rw [if_neg fun hp => he ⟨congrArg Prod.fst hp, congrArg Prod.snd hp⟩]
      grind [Stage.watched?, Stage.owner?]
  · rw [World.unwatch_orders] at hk
    obtain ⟨hk, ht⟩ := mem_foldl_obey_stops hk hs
    exact (h.minds k hk hs).of_ne (fun lock v hne => by rw [World.tag?_unwatch, if_neg hne]) ht

theorem work {t : List (Asked operations)} {orders : Orders} {c : Strand operations Pledge Ending}
    (h : Guarded n y) (hi : y.sections[i]? = some s)
    (hnode : Node y.Old y.world s.strand t w' orders c) :
    Guarded n ⟨w', y.sections.set i { s with strand := c, trace := s.trace ++ t },
      orders.foldl obey y.keepers⟩ := by
  have hk := h.keeps i s hi
  have hr := h.recorded i s hi
  have hstage : ({ s with strand := c, trace := s.trace ++ t } : Section).stage =
      t.foldl Stage.next s.stage := List.foldl_append
  have hkeeps : Keeps n s.key (fun _ φ _ => φ.IsOpen)
      ({ s with strand := c, trace := s.trace ++ t } : Section).stage c := by
    rw [hstage]
    cases hnode with
    | inner hs => exact hk.step hs
    | wait hs => exact hk.step hs
    | owner _ hs => exact hk.step hs
    | deed _ hs => exact hk.step hs
  cases hnode with
  | inner hs =>
    refine h.still hi hkeeps rfl (.of_clients rfl) ?_ ?_ ?_
    · rw [hstage, List.append_nil]
      exact hr
    · rw [hstage]
      rfl
    · rw [hstage]
      rfl
  | @wait op a _ hs =>
    have hok : Allowed n s.key s.stage (.wait op) :=
      (hk.ok_of_call (call?_of_step_call hs)).1
    have hsame := hok.same (fun d hd => by cases hd) a
    refine h.still hi hkeeps rfl (.of_clients rfl) ?_ (hstage ▸ hsame.1) (hstage ▸ hsame.2)
    rw [hstage]
    exact hr.next hok a
  | @owner u _ hnew hs =>
    have hok : Allowed n s.key s.stage (.deed .newOwner) :=
      (hk.ok_of_call (call?_of_step_call hs)).1
    have hrec := hr.next hok u
    rcases hok.deed with ⟨hφ, -⟩ | ⟨_, _, -, hd⟩ | ⟨_, -, hd⟩ | ha
    · refine h.owner hi hkeeps rfl (hstage ▸ hrec) hφ ?_ hnew
      rw [hstage, hφ]
      rfl
    · cases hd
    · cases hd
    · cases ha
  | @deed now d _ hd hs =>
    have hok : Allowed n s.key s.stage (.deed d) :=
      (hk.ok_of_call (call?_of_step_call hs)).1
    have hrec := hr.next hok (y.world.carryOut now d).2.2
    -- only two deeds of a section reach the table, each at one stage
    rcases hok.deed with ⟨-, hd'⟩ | ⟨u, lease, hφ, rfl⟩ | ⟨u, hφ, rfl⟩ | ha
    · exact absurd hd' hd
    · have hφ' := hstage
      rw [hφ] at hφ'
      exact h.watch hi hkeeps rfl (hstage ▸ hrec) hφ hφ' lease
    · have hφ' := hstage
      rw [hφ] at hφ'
      exact h.unwatch hi hkeeps rfl (hstage ▸ hrec) hφ hφ'
    · have hsame := hok.same (fun d hd => ha) (y.world.carryOut now d).2.2
      obtain ⟨hw, hquiet⟩ := World.carryOut_isAside ha y.world n now
      exact (h.still hi hkeeps rfl hw (hstage ▸ hrec) (hstage ▸ hsame.1) (hstage ▸ hsame.2)).fewer
        fun k hk hs => mem_foldl_obey_quiet hquiet hk hs

theorem enter (h : Guarded n y) {c : Strand operations Pledge Ending} {key : String}
    (hc : Keeps n key (fun _ φ _ => φ.IsOpen) .outside c) :
    Guarded n { y with sections := y.sections ++ [⟨key, c, []⟩] } := by
  have hcases {j : Nat} {x : Section} (hj : (y.sections ++ [⟨key, c, []⟩])[j]? = some x) :
      y.sections[j]? = some x ∨ x = ⟨key, c, []⟩ := by
    rw [List.getElem?_append] at hj
    split at hj
    · exact .inl hj
    · rw [List.getElem?_singleton] at hj
      split at hj
      · exact .inr (Option.some.inj hj).symm
      · cases hj
  have hnew {x : Section} {u : Ulid} (hx : x = ⟨key, c, []⟩) : x.stage.owner? ≠ some u := by
    rw [hx]
    nofun
  refine ⟨h.client, fun j x hj => ?keeps, fun j x hj => ?recorded,
    fun j j' x x' u hj hj' hu hu' => ?apart, fun lock u => ?entry, h.minds⟩
  case keeps =>
    rcases hcases hj with hj | rfl
    · exact h.keeps j x hj
    · exact hc
  case recorded =>
    rcases hcases hj with hj | rfl
    · exact h.recorded j x hj
    · exact .nil
  case apart =>
    rcases hcases hj with hj | hx
    · rcases hcases hj' with hj' | hx'
      · exact h.apart _ _ _ _ u hj hj' hu hu'
      · exact absurd hu' (hnew hx')
    · exact absurd hu (hnew hx)
  case entry =>
    rw [h.entry]
    constructor
    · rintro ⟨j, x, hj, hl, hu⟩
      refine ⟨j, x, ?_, hl, hu⟩
      rw [List.getElem?_append_left (List.getElem?_eq_some_iff.1 hj).1]
      exact hj
    · rintro ⟨j, x, hj, hl, hu⟩
      rcases hcases hj with hj | hx
      · exact ⟨j, x, hj, hl, hu⟩
      · exact absurd (Stage.owner?_of_watched? hu) (hnew hx)

/-- A watchdog that goes on stays one, wherever it is put. -/
theorem mind (h : Guarded n y) (hi : k ∈ y.keepers)
    (hk : k.stopped = false) {c : Strand operations Pledge Ending}
    (hc : ∀ lock u, Renews n lock u k.strand → Renews n lock u c) :
    Guarded n { y with keepers := y.keepers.set i { k with strand := c } } := by
  refine ⟨h.client, h.keeps, h.recorded, h.apart, h.entry, fun k' hk' hs => ?_⟩
  rcases List.mem_or_eq_of_mem_set hk' with hk' | rfl
  · exact h.minds k' hk' hs
  · obtain ⟨lock, u, g, hg, ht, hr⟩ := h.minds k hi hk
    exact ⟨lock, u, g, hg, ht, hc lock u hr⟩

theorem stir (h : Guarded n y) (hw : World.Alike n y.world w') :
    Guarded n { y with world := w' } where
  client := hw.client h.client
  keeps := h.keeps
  recorded := h.recorded
  apart := h.apart
  entry lock u := by rw [hw.tag, h.entry]
  minds k hk hs := (h.minds k hk hs).alike hw

theorem step (h : Guarded n y) (hs : Yard.Step n y y') : Guarded n y' := by
  cases hs with
  | enter w key wait work hw hwork => exact h.enter (section_keeps hw wait hwork)
  | work i s hi hnode => exact h.work hi hnode
  | drop i s hi hop hleft hw =>
    have hok := (h.keeps i s hi).ok_of_call hop
    exact h.still hi (hleft.keeps hok.1.isOpen hok.2) rfl hw (h.recorded i s hi) rfl rfl
  | keep i k hi hk hnode =>
    have hm := List.mem_of_getElem? hi
    -- a watchdog does nothing at once
    have hdeed {d : Deed} (hd : k.strand.call? = some (.deed d)) : False := by
      obtain ⟨lock, u, g, -, -, hr⟩ := h.minds k hm hk
      cases (hr.ok_of_call hd : Renewal lock u (.deed d))
    cases hnode with
    | inner hs => exact h.mind hm hk fun _ _ hr => hr.step hs
    | wait hs => exact h.mind hm hk fun _ _ hr => hr.step hs
    | owner _ hs => exact (hdeed (call?_of_step_call hs)).elim
    | deed _ hs => exact (hdeed (call?_of_step_call hs)).elim
  | again i k sv owed hi hk hc =>
    refine h.mind (List.mem_of_getElem? hi) hk fun lock u hr => ?_
    rw [hc] at hr
    cases hr with
    | done hq =>
      obtain ⟨rfl, hsv⟩ := hq
      obtain ⟨lease, rfl⟩ := hsv sv rfl
      exact renews_round
  | halt i k hi =>
    refine h.fewer fun k' hk' hs => ?_
    rcases List.mem_or_eq_of_mem_set hk' with hk' | rfl
    · exact hk'
    · cases hs
  | stir w hw => exact h.stir hw

end Guarded

theorem Yard.Reach.guarded {w : World} {y : Yard} (hn : n < w.clients.length)
    (hw : ∀ lock u, w.tag? n lock u = none) (h : Yard.Reach n w y) : Guarded n y := by
  induction h with
  | start => exact .start hn hw
  | step _ hs ih => exact ih.step hs

end Turnstile.Sim
