import Turnstile.Proofs.Remote.Lower
import Turnstile.Sim.World

/-!
# Beside the fair locks

Calls, routines and operations that have to do with no fair lock. Whatever is carried out by such
operations `Stays` in every state that they leave alone: the work under a lock, its permits and the
entries that it writes, wherever its collaborators stand.
-/

namespace Turnstile

/-! ### Calls of a reservation -/

namespace Admission

def Call.IsAside : Call → Prop
  | .newOwner => False
  | .lock _ _ _ => False
  | .isHeldBy _ _ => False
  | .unlock _ _ => False
  | _ => True

def Release.IsAside : Release → Prop
  | .lock _ _ => False
  | _ => True

/-- The routine has to do with no fair lock, and settles what it owes. -/
abbrev IsAside {α : Type} (p : Routine α) : Prop := p.Tame Call.IsAside Release.IsAside 0

theorem noteFailure_tame {ε : Type} {R : Release → Prop} (guard : GuardName) (r : Except ε Bool) :
    (Release.noteFailure guard r).Tame Call.IsAside R 0 := by
  cases r with
  | ok b => exact .done ()
  | error e => exact .call trivial fun _ => .done ()

/-- A release owes nothing itself. -/
theorem Release.program_tame {r : Release} (h : r.IsAside) :
    r.program.Tame Call.IsAside (fun _ => False) 0 := by
  cases r with
  | lock key owner => cases h
  | spareLock held => exact .call trivial fun _ => noteFailure_tame _ _
  | permits spare key => exact .call trivial fun _ => noteFailure_tame _ _

namespace Policy

theorem permitVerdict_isAside (spare : Bool) (r : Except GuardError Bool) :
    IsAside (permitVerdict spare r) := by
  cases r with
  | error e => exact .done _
  | ok granted => exact .call trivial fun _ => .done _

theorem takePermits_isAside (p : Policy) (key : SlotKey) (permits : UInt32) :
    IsAside (p.takePermits key permits) := by
  refine .call trivial fun answer => ?_
  cases answer with
  | error e =>
    dsimp only
    split
    · exact .call trivial fun _ => .call trivial fun _ => permitVerdict_isAside _ _
    · exact .done _
  | ok granted => exact permitVerdict_isAside _ _

theorem walk_isAside (user : UInt64) (now : DateTime) (cs : List Candidate) :
    IsAside (walk user now cs) := by
  induction cs with
  | nil => exact .done _
  | cons c rest ih =>
    refine .call trivial fun answer => ?_
    match answer with
    | .ok (some id) => exact .done _
    | .ok none => exact ih
    | .error e => exact .done _

/-- What a reservation does under its lock is done beside the lock. -/
theorem occupy_isAside (p : Policy) (request : Request) (key : SlotKey) :
    IsAside (p.occupy request key) := by
  refine .call trivial fun answer => ?_
  match answer with
  | .error e => exact .done _
  | .ok [] => exact .done _
  | .ok (c :: cs) =>
    refine (takePermits_isAside p key _).andThen fun r => ?_
    cases r with
    | error e => exact .done _
    | ok spare =>
      have h : IsAside (.call .wallClock fun now => walk request.user now (ranked (c :: cs))) :=
        .call trivial fun now => walk_isAside _ _ _
      exact h.owing trivial

end Policy

end Admission

/-! ### Routines of a client -/

namespace Remote

/-- No script for a lock is run; its text may be sent. -/
def Command.IsAside : Command → Prop
  | .run .acquire _ _ => False
  | .run .release _ _ => False
  | .run .renew _ _ => False
  | _ => True

def Call.IsAside : Call → Prop
  | .send c => c.IsAside
  | .watch _ _ _ => False
  | .unwatch _ _ => False
  | _ => True

abbrev IsAside {α : Type} (p : Routine α) : Prop := p.Tame Call.IsAside (fun _ => True) 0

variable {α : Type}

theorem run_isAside {script : Script} {keys : List Name} {args : List Argument}
    {read : Reply → Except GuardError α} (h : (Command.run script keys args).IsAside) :
    IsAside (run script keys args read) := by
  refine .call h fun reply => ?_
  split
  · refine .call trivial fun reply => ?_
    split
    · exact .done _
    · exact .call h fun _ => .done _
  · exact .done _

theorem Rate.look_isAside (bucket : Name) (plan : RatePlan) (deadline n : Nat) :
    IsAside (Rate.look bucket plan deadline n) := by
  induction n with
  | zero => exact .done _
  | succ n ih =>
    refine Program.Tame.andThen (run_isAside ?_) fun answer => ?_
    · trivial
    cases answer with
    | error e => exact .done _
    | ok millis =>
      dsimp only
      split
      · exact .done _
      · refine .call trivial fun now => ?_
        split
        · exact .done _
        · exact .call trivial fun _ => ih

theorem Rate.take_isAside (client : Ulid) (key : String) (wait : Duration) (plan : RatePlan) :
    IsAside (Rate.take client key wait plan) := by
  unfold Rate.take
  split
  · exact .done _
  · exact .done _
  · exact .done _
  · exact .call trivial fun _ => Rate.look_isAside _ _ _ _

theorem Permits.poll_isAside (key : String) (plan : PoolPlan) (permits : UInt32)
    (deadline n : Nat) : IsAside (Permits.poll key plan permits deadline n) := by
  induction n with
  | zero => exact .done _
  | succ n ih =>
    refine Program.Tame.andThen (run_isAside ?_) fun answer => ?_
    · trivial
    cases answer with
    | error e => exact .done _
    | ok taken =>
      dsimp only
      split
      · exact .call trivial fun _ => .done _
      split
      · exact .done _
      refine .call trivial fun now => ?_
      split
      · exact .done _
      · exact .call trivial fun _ => ih

theorem Permits.take_isAside (key : String) (plan : PoolPlan) (demand : PoolDemand) :
    IsAside (Permits.take key plan demand) := by
  unfold Permits.take
  split
  · exact .done _
  · exact .done _
  · exact .done _
  · exact .call trivial fun _ => Permits.poll_isAside _ _ _ _ _

theorem Permits.give_isAside (key : String) : IsAside (Permits.give key) := by
  refine .call trivial fun latest => ?_
  match latest with
  | none => exact .done _
  | some (permits, lifetime) => 
    refine Program.Tame.andThen (run_isAside ?_) fun _ => .done _
    trivial

theorem Flags.isEnabled_isAside (name : String) : IsAside (Flags.isEnabled name) :=
  .call trivial fun _ => .done _

end Remote

/-! ### Operations -/

namespace Sim

theorem Code.remote_bind {α β : Type} (n : Nat) (p : Remote.Routine α) (q : α → Remote.Routine β) :
    Code.remote n (p.bind q) = (Code.remote n p).bind fun a => Code.remote n (q a) :=
  Program.lower_bind _ _ p q

/-- A script is run in a state that only its own reply changes. -/
theorem run_always {α Φ : Type} {next : Φ → Asked operations → Φ}
    {ok : Φ → List Pledge → Op → Prop} {φ : Φ} {n : Nat} {script : Remote.Script}
    {keys : List Remote.Name} {args : List Remote.Argument}
    {read : Remote.Reply → Except GuardError α} {R : Except GuardError α → Φ → Prop}
    {owed : List Pledge} (hok : ok φ owed (.wait (.exchange (.run script keys args))))
    (hload : ok φ owed (.wait (.exchange (.load script))))
    (hloaded : ∀ r : Remote.Reply, next φ ⟨.wait (.exchange (.load script)), r⟩ = φ)
    (hread : ∀ r : Remote.Reply, R (read r) (next φ ⟨.wait (.exchange (.run script keys args)), r⟩))
    (hmiss : ∀ r : Remote.Reply, r.isUnknownScript = true →
      next φ ⟨.wait (.exchange (.run script keys args)), r⟩ = φ)
    (hfail : ∀ e, R (.error e) φ) :
    Strand.Always Pledge.code next ok (fun a φ' o => R a φ' ∧ o = owed) φ
      ⟨Code.remote n (Remote.run script keys args read), owed⟩ := by
  refine .call hok fun (r : Remote.Reply) => ?_
  show Strand.Always _ _ _ _ _ ⟨Code.remote n (if r.isUnknownScript then _ else _), owed⟩
  by_cases hr : r.isUnknownScript = true
  · rw [if_pos hr, hmiss r hr]
    refine .call hload fun (r' : Remote.Reply) => ?_
    rw [hloaded]
    dsimp only [Program.bind]
    cases r'.failure? with
    | some e => exact .done ⟨hfail e, rfl⟩
    | none => exact .call hok fun r => .done ⟨hread r, rfl⟩
  · rw [if_neg hr]
    exact .done ⟨hread r, rfl⟩

/-- The operation neither asks for a fair lock nor releases one, and starts no task. -/
def Op.IsAside : Op → Prop
  | .wait (.exchange c) => c.IsAside
  | .deed .newOwner => False
  | .deed (.watch _ _ _ _) => False
  | .deed (.unwatch _ _ _) => False
  | .deed .useLock => False
  | .deed .useController => False
  | .deed (.act _) => False
  | _ => True

/-- No fair lock is owed. -/
def Pledge.IsAside : Pledge → Prop
  | .release _ r => r.IsAside
  | _ => True

section

variable {α Φ : Type} {next : Φ → Asked operations → Φ} {ok : Φ → List Pledge → Op → Prop}
  {P : List Pledge → Prop} {φ : Φ}

/-- Operations beside the locks are allowed in this state, whatever is owed besides, and leave it
alone. -/
structure Ignores (next : Φ → Asked operations → Φ) (ok : Φ → List Pledge → Op → Prop)
    (P : List Pledge → Prop) (φ : Φ) : Prop where
  ok : ∀ op : Op, op.IsAside → ∀ owed, P owed → ok φ owed op
  next : ∀ op : Op, op.IsAside → ∀ a, next φ ⟨op, a⟩ = φ
  owe : ∀ r : Pledge, r.IsAside → ∀ owed, P owed → P (r :: owed)

namespace Ignores

variable (h : Ignores next ok P φ)
include h

theorem deed {d : Deed} (hd : Op.IsAside (.deed d)) :
    Strand.Stays Pledge.code next ok P φ (Code.deed d) :=
  .call (h.ok _ hd) (h.next _ hd) fun a => .done a

theorem wait {w : Wait} (hw : Op.IsAside (.wait w)) :
    Strand.Stays Pledge.code next ok P φ (Code.wait w) :=
  .call (h.ok _ hw) (h.next _ hw) fun a => .done a

theorem deedThen {d : Deed} {k : d.Answer → Code α} (hd : Op.IsAside (.deed d))
    (hk : ∀ a, Strand.Stays Pledge.code next ok P φ (k a)) :
    Strand.Stays Pledge.code next ok P φ ((Code.deed d).bind k) :=
  (h.deed hd).bind hk

theorem waitThen {w : Wait} {k : w.Answer → Code α} (hw : Op.IsAside (.wait w))
    (hk : ∀ a, Strand.Stays Pledge.code next ok P φ (k a)) :
    Strand.Stays Pledge.code next ok P φ ((Code.wait w).bind k) :=
  (h.wait hw).bind hk

theorem watched {points words : List String} {answer? : FaultKind → Option α}
    {go : Option UInt32 → Code α} (hg : ∀ c, Strand.Stays Pledge.code next ok P φ (go c)) :
    Strand.Stays Pledge.code next ok P φ (Code.watched points words answer? go) := by
  refine h.deedThen trivial fun f => ?_
  cases f with
  | none => exact hg none
  | some f =>
    refine Strand.Stays.bind ?_ fun _ => ?_
    · cases f.delay with
      | none => exact .done ()
      | some d => exact h.wait trivial
    · cases answer? f.kind with
      | none => exact hg _
      | some a => exact .done a

theorem call {w : Watch} {name : String} {details : List String}
    {answer? : FaultKind → Option α} {go : Option UInt32 → Code α}
    (hg : ∀ c, Strand.Stays Pledge.code next ok P φ (go c)) :
    Strand.Stays Pledge.code next ok P φ (w.call name details answer? go) := by
  cases w with
  | off => exact hg none
  | primary => exact h.watched hg
  | spare => exact h.watched hg

theorem isGranted (side : Side) (a : Local.Attempt) :
    Strand.Stays Pledge.code next ok P φ (Code.isGranted side a) :=
  h.waitThen trivial fun _ => .done _

theorem remote {n : Nat} {p : Remote.Routine α} (hp : Remote.IsAside p) :
    Strand.Stays Pledge.code next ok P φ (Code.remote n p) := by
  refine Strand.Stays.lower hp (fun c hc => ?_) (fun r _ => r.elim) fun r _ => r.elim
  cases c with
  | send c => exact h.wait hc
  | clock => exact h.deed trivial
  | pause d => exact h.wait trivial
  | watch lock owner lease => cases hc
  | unwatch lock owner => cases hc
  | remember key permits lifetime => exact h.deed trivial
  | takeLatest key => exact h.deed trivial

theorem isEnabled (p : FlagPost) (name : String) :
    Strand.Stays Pledge.code next ok P φ (p.isEnabled name) := by
  cases p with
  | watched =>
    rw [FlagPost.isEnabled]
    exact h.call fun _ => h.deedThen trivial fun _ => .done _
  | remote n => exact h.remote (Remote.Flags.isEnabled_isAside name)

theorem rate (p : Post) (key : String) (wait : Duration) (plan : RatePlan) :
    Strand.Stays Pledge.code next ok P φ (p.rate key wait plan) := by
  cases p with
  | store side watch =>
    rw [Post.rate]
    exact h.call fun _ => h.isGranted _ _
  | remote n => exact h.remote (Remote.Rate.take_isAside _ key wait plan)

theorem permits (p : Post) (key : String) (plan : PoolPlan) (demand : PoolDemand) :
    Strand.Stays Pledge.code next ok P φ (p.permits key plan demand) := by
  cases p with
  | store side watch =>
    rw [Post.permits]
    exact h.call fun _ => h.isGranted _ _
  | remote n => exact h.remote (Remote.Permits.take_isAside key plan demand)

theorem giveBack (p : Post) (key : String) :
    Strand.Stays Pledge.code next ok P φ (p.giveBack key) := by
  cases p with
  | store side watch =>
    rw [Post.giveBack]
    exact h.call fun _ => h.deedThen trivial fun _ => .done _
  | remote n => exact h.remote (Remote.Permits.give_isAside key)

theorem spareLock (p : SpareLockPost) (key : String) (wait : Duration) :
    Strand.Stays Pledge.code next ok P φ (p.lock key wait) := by
  cases p with
  | store side watch =>
    rw [SpareLockPost.lock]
    exact h.call fun _ => h.waitThen trivial fun _ => .done _
  | unreachable => exact .done _

theorem spareUnlock (p : SpareLockPost) (held : Admission.Held) :
    Strand.Stays Pledge.code next ok P φ (p.unlock held) := by
  cases p with
  | store side watch =>
    rw [SpareLockPost.unlock]
    exact .owing (h.call fun _ => .done _) (h.deed trivial) (h.owe _ trivial)
  | unreachable => exact .done _

theorem query (slot : Slot) : Strand.Stays Pledge.code next ok P φ (Wiring.query slot) := by
  rw [Wiring.query]
  exact h.call fun _ => h.deedThen trivial fun _ => .done _

theorem create (o : Occupancy) : Strand.Stays Pledge.code next ok P φ (Wiring.create o) := by
  rw [Wiring.create]
  exact h.watched fun _ => h.deed trivial

/-- Wherever a collaborator stands, a call beside the locks is carried out beside the locks. -/
theorem serve (w : Wiring) {c : Admission.Call} (hc : c.IsAside) :
    Strand.Stays Pledge.code next ok P φ (w.serve c) := by
  cases c with
  | newOwner => cases hc
  | lock key owner wait => cases hc
  | isHeldBy key owner => cases hc
  | unlock key owner => cases hc
  | flag name => exact h.isEnabled _ name
  | wallClock => exact h.deed trivial
  | rate spare key wait plan => exact h.rate _ key.text wait plan
  | spareLock key wait => exact h.spareLock _ key.text wait
  | spareUnlock held => exact h.spareUnlock _ held
  | permits spare key plan demand => exact h.permits _ key.text plan demand
  | giveBack spare key => exact h.giveBack _ key.text
  | query slot => exact h.query slot
  | create entry => exact h.create entry
  | publish event => exact h.deed trivial
  | note n => exact h.deed trivial
  | pause d => exact h.wait trivial

theorem settle (w : Wiring) {r : Admission.Release} (hr : r.IsAside) :
    Strand.Stays Pledge.code next ok P φ (Pledge.code (.release w r)) :=
  Strand.Stays.lower (Admission.Release.program_tame hr) (fun _ hc => h.serve w hc) nofun nofun

/-- Work beside the locks is carried out beside the locks. -/
theorem run (w : Wiring) {p : Admission.Routine α} (hp : Admission.IsAside p) :
    Strand.Stays Pledge.code next ok P φ (w.run p) :=
  .lower hp (fun _ hc => h.serve w hc) (fun _ hr => h.settle w hr) fun _ hr => h.owe _ hr

end Ignores

end

end Sim

end Turnstile
