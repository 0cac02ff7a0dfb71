import Turnstile.Proofs.Admission.Hall
import Turnstile.Proofs.Admission.Report
import Turnstile.Proofs.Local.Pruned

/-!
# Sweeps that nobody notices

Reservations at one hall, in any order of their steps, with any of them dropped, and sweeps of the
store in between. All controllers have the same settings. Leaving the sweeps out changes nothing
but entries of the store that make no difference (`run_unnoticed`): the two runs make the same
moves, and `Pruned` relates their stores after every one of them. What that needs of the callers,
that they name one plan, ask for whole pools and stand in the lists of the pools that they wait at,
is the invariant `Tended` of the run without sweeps.
-/

namespace Turnstile.Admission

variable {E : Surroundings} {settings : Settings}

/-- The call names the plans of these settings. -/
def Call.IsOf (settings : Settings) : Call → Prop
  | rate false _ _ plan => plan = settings.rate
  | permits false _ plan demand => demand.permits = plan.capacity
  | _ => True

/-! ## One look -/

namespace Hall

variable {h : Hall E} {st : Local.Store} {now : Nat} {t : Ticket} {c : Call}
  {v : Option (Waiting E)} {a : Local.Attempt} {w? : Option Local.Waiting} {rate : RatePlan}
  {p : Local.Progress}

namespace Waiting

/-- The pool at which a call waits. -/
def pool? : Waiting E → Option String
  | guard w => w.pool?
  | other _ => none

def isGuard : Waiting E → Bool
  | guard _ => true
  | other _ => false

/-- Only what waits for a guard remembers a plan. -/
def IsWhole (rate : RatePlan) : Waiting E → Prop
  | guard w => w.IsWhole rate
  | other _ => True

end Waiting

/-- What a look under the ticket `t` leaves behind; `guard` says that it was one at a guard. -/
structure Leaves {α : Type} (rate : RatePlan) (guard : Bool) (s : Local.Store) (t : Ticket)
    (s' : Local.Store) (x : Look α (Pending E)) : Prop where
  orderly : s'.Orderly rate
  answered : ∀ a, x = .answered a → s.Settles s' t none
  blocked : ∀ v, x = .blocked v → v.1 = t ∧ v.2.isGuard = guard ∧ v.2.IsWhole rate ∧
    s.Settles s' t v.2.pool?

/-- The callers of all pools know of the ticket what is remembered under it. -/
structure Knows (s : Local.Store) (t : Ticket) (at? : Option String) : Prop where
  nodup : ∀ key, (s.callers key).Nodup
  mem : ∀ key, t ∈ s.callers key ↔ at? = some key

theorem Knows.not_mem {s : Local.Store} (hk : Knows s t none) (key : String) :
    t ∉ s.callers key := by
  intro hm
  have hn : none = some key := (hk.mem key).1 hm
  cases hn

theorem leaves_settle {s : Local.Store} (ho : st.Orderly rate) (hs : s.Settles st t p.pool?)
    (hw : ∀ w, p = .waiting w → w.IsWhole rate) :
    Leaves rate true s t st (settle t p : Look _ (Pending E)) := by
  refine ⟨ho, fun a ha => ?_, fun v hv => ?_⟩
  · cases p with
    | done o => exact hs
    | waiting w => cases ha
  · cases p with
    | done o => cases hv
    | waiting w =>
      cases hv
      exact ⟨rfl, rfl, hw w rfl, hs⟩

theorem attempt_leaves (ho : h.store.Orderly rate) (ha : a.IsWhole rate)
    (hw : ∀ w, w? = some w → w.IsWhole rate) (hk : Knows h.store t (w?.bind Local.Waiting.pool?)) :
    Leaves rate true h.store t (h.attempt now t a w?).1.store (h.attempt now t a w?).2.2 := by
  cases w? with
  | none =>
    have hs : h.store.Settles (h.store.begin t now a).1 t (h.store.begin t now a).2.pool? :=
      Local.Store.begin_settles hk.not_mem
    exact leaves_settle (ho.begin ha) hs fun w hw => Local.Store.begin_isWhole ha hw
  | some w =>
    have hs : h.store.Settles (h.store.resume t now w).1 t (h.store.resume t now w).2.2.pool? :=
      Local.Store.resume_settles hk.nodup hk.mem
    exact leaves_settle (ho.resume (hw w rfl)) hs fun w' hw' =>
      Local.Store.resume_isWhole (hw w rfl) hw'

theorem leaves_answered {α : Type} {a : α} {s : Local.Store} {guard : Bool} (ho : st.Orderly rate)
    (hs : s.Settles st t none) : Leaves rate guard s t st (.answered a : Look α (Pending E)) :=
  ⟨ho, fun _ _ => hs, nofun⟩

theorem elsewhere_leaves {x : Option E.Pending} (ho : h.store.Orderly rate)
    (hk : Knows h.store t none) :
    Leaves rate false h.store t (h.elsewhere now t c x).1.store (h.elsewhere now t c x).2.2 := by
  have hs : h.store.Settles h.store t none := .of_pools rfl hk.not_mem
  unfold elsewhere
  split
  · refine ⟨ho, fun _ _ => hs, fun v hv => ?_⟩
    dsimp only at hv
    generalize (E.look h.others now t c x).2.2 = l at hv
    cases l with
    | answered a => cases hv
    | blocked w =>
      cases hv
      exact ⟨rfl, rfl, trivial, hs⟩
  · exact leaves_answered ho hs

theorem guard_of_isAttempt (hg : c.isAttempt = true)
    (hv : ∀ w, v = some w → w.isGuard = c.isAttempt ∧ w.IsWhole rate)
    (hk : Knows h.store t (v.bind Waiting.pool?)) :
    (∀ w, v.bind Waiting.guard? = some w → w.IsWhole rate) ∧
      Knows h.store t ((v.bind Waiting.guard?).bind Local.Waiting.pool?) := by
  cases v with
  | none => exact ⟨nofun, hk⟩
  | some w =>
    obtain ⟨hi, hw⟩ := hv w rfl
    cases w with
    | guard w =>
      refine ⟨fun w' hw' => ?_, hk⟩
      cases hw'
      exact hw
    | other w => cases hi.trans hg

theorem look_leaves (ho : h.store.Orderly settings.rate) (hc : c.IsOf settings)
    (hv : ∀ w, v = some w → w.isGuard = c.isAttempt ∧ w.IsWhole settings.rate)
    (hk : Knows h.store t (v.bind Waiting.pool?)) :
    Leaves settings.rate c.isAttempt h.store t (h.look now t c v).1.store
      (h.look now t c v).2.2 := by
  have hguard := fun hg : c.isAttempt = true => guard_of_isAttempt hg hv hk
  have hother : c.isAttempt = false → Knows h.store t none := by
    intro hg
    cases v with
    | none => exact hk
    | some w =>
      obtain ⟨hi, -⟩ := hv w rfl
      cases w with
      | guard w => cases hi.trans hg
      | other w => exact hk
  unfold look
  split
  · exact attempt_leaves ho hc (hguard rfl).1 (hguard rfl).2
  · exact attempt_leaves ho trivial (hguard rfl).1 (hguard rfl).2
  · exact attempt_leaves ho hc (hguard rfl).1 (hguard rfl).2
  · exact leaves_answered ho (.of_pools rfl (hother rfl).not_mem)
  · refine leaves_answered (ho.sameStock Local.Store.unlock_sameStock) ?_
    exact .of_pools Local.Store.unlock_sameStock.pools (hother rfl).not_mem
  · refine leaves_answered ho.giveBack fun key => ?_
    rw [Local.Store.callers_giveBack, Local.Store.filter_callers ((hother rfl).not_mem key)]
    simp
  · rename_i hrate hlock hpermits _ _ _
    have hg : c.isAttempt = false := by
      cases c with
      | rate spare key wait plan =>
        cases spare with
        | false => exact absurd rfl (hrate key wait plan)
        | true => rfl
      | lock key owner wait => exact absurd rfl (hlock key owner wait)
      | permits spare key plan demand =>
        cases spare with
        | false => exact absurd rfl (hpermits key plan demand)
        | true => rfl
      | _ => rfl
    rw [hg]
    exact elsewhere_leaves ho (hother hg)

/-! ### At a hall whose store is pruned -/

/-- `h'` has the store of `h` without entries that make no difference. -/
structure Pruned (now : Nat) (h h' : Hall E) : Prop where
  store : h.store.Pruned now h'.store
  others : h'.others = h.others

variable {h' : Hall E}

theorem attempt_pruned (hp : Pruned now h h') (ho : h.store.Orderly rate) (ha : a.IsWhole rate)
    (hw : ∀ w, w? = some w → w.IsWhole rate) (hk : Knows h.store t (w?.bind Local.Waiting.pool?)) :
    Pruned now (h.attempt now t a w?).1 (h'.attempt now t a w?).1 ∧
      (h'.attempt now t a w?).2 = (h.attempt now t a w?).2 := by
  cases w? with
  | none =>
    obtain ⟨hs, he⟩ := @Local.Store.Pruned.begin _ _ t _ a _ hp.store ho ha
    refine ⟨⟨hs, hp.others⟩, ?_⟩
    simp only [attempt, he]
  | some w =>
    obtain ⟨hs, he⟩ := @Local.Store.Pruned.resume _ _ t _ w _ hp.store ho (hw w rfl) fun key hkey =>
      (hk.mem key).2 hkey
    refine ⟨⟨hs, hp.others⟩, ?_⟩
    simp only [attempt, he]

theorem elsewhere_pruned {x : Option E.Pending} (hp : Pruned now h h') :
    Pruned now (h.elsewhere now t c x).1 (h'.elsewhere now t c x).1 ∧
      (h'.elsewhere now t c x).2 = (h.elsewhere now t c x).2 := by
  unfold elsewhere
  rw [hp.others]
  split
  · exact ⟨⟨hp.store, rfl⟩, rfl⟩
  · exact ⟨⟨hp.store, rfl⟩, rfl⟩

theorem look_pruned (hp : Pruned now h h') (ho : h.store.Orderly settings.rate)
    (hc : c.IsOf settings) (hv : ∀ w, v = some w → w.isGuard = c.isAttempt ∧ w.IsWhole settings.rate)
    (hk : Knows h.store t (v.bind Waiting.pool?)) :
    Pruned now (h.look now t c v).1 (h'.look now t c v).1 ∧
      (h'.look now t c v).2 = (h.look now t c v).2 := by
  have hguard := fun hg : c.isAttempt = true => guard_of_isAttempt hg hv hk
  unfold look
  split
  · exact attempt_pruned hp ho hc (hguard rfl).1 (hguard rfl).2
  · exact attempt_pruned hp ho trivial (hguard rfl).1 (hguard rfl).2
  · exact attempt_pruned hp ho hc (hguard rfl).1 (hguard rfl).2
  · rename_i key owner
    have hheld : h'.store.isHeldBy key.text owner = h.store.isHeldBy key.text owner :=
      hp.store.isHeldBy
    exact ⟨hp, by simp only [hheld]⟩
  · obtain ⟨hs, he⟩ := hp.store.unlock
    refine ⟨⟨hs, hp.others⟩, ?_⟩
    simp only [he]
  · obtain ⟨hs, he⟩ := hp.store.giveBack ho
    refine ⟨⟨hs, hp.others⟩, ?_⟩
    simp only [he]
  · exact elsewhere_pruned hp

theorem cancel_pruned {w : Waiting E} (hp : Pruned now h h') (hk : Knows h.store t w.pool?) :
    Pruned now (h.cancel now (t, w)).1 (h'.cancel now (t, w)).1 ∧
      (h'.cancel now (t, w)).2 = (h.cancel now (t, w)).2 := by
  cases w with
  | guard w =>
    obtain ⟨hs, he⟩ := @Local.Store.Pruned.cancel _ _ t _ w hp.store fun key hkey =>
      (hk.mem key).2 hkey
    exact ⟨⟨hs, hp.others⟩, he⟩
  | other w =>
    have he : E.cancel h'.others now t w = E.cancel h.others now t w := by rw [hp.others]
    simp only [cancel, he, and_true]
    exact ⟨hp.store, rfl⟩

end Hall

/-! ## Many reservations -/

/-- A hall, the clock, and what a scheduler is told. -/
structure Floor (E : Surroundings) where
  hall : Hall E
  now : Nat
  /-- The next ticket. -/
  tickets : Nat
  /-- The tickets that were woken, oldest first. -/
  woken : List Ticket

namespace Floor

/-- The ticket of a call, a new one at the first look. -/
def ticket (f : Floor E) (v : Option (Hall.Pending E)) : Ticket := (v.map (·.1)).getD f.tickets

def glance (f : Floor E) (c : Call) (v : Option (Hall.Pending E)) :
    Floor E × Look c.Answer (Hall.Pending E) :=
  let r := f.hall.look f.now (f.ticket v) c (v.map (·.2))
  ({ f with
      hall := r.1
      tickets := if v.isSome then f.tickets else f.tickets + 1
      woken := f.woken ++ r.2.1 },
    r.2.2)

/-- Forgets the call of a thread that is dropped. -/
def forget (f : Floor E) : Option (Hall.Pending E) → Floor E
  | none => f
  | some v =>
    let r := f.hall.cancel f.now v
    { f with hall := r.1, woken := f.woken ++ r.2 }

/-- What happens besides: time passes, the surroundings change, the reaper passes. -/
inductive Stirs (f : Floor E) : Floor E → Prop
  | pass (d : Nat) : Stirs f { f with now := f.now + d }
  | change (σ : E.State) : Stirs f { f with hall := { f.hall with others := σ } }
  | sweep : Stirs f { f with hall := f.hall.sweep f.now }

end Floor

/-- Reservations at one hall, all of them with the same settings. -/
abbrev Office.floor (E : Surroundings) (settings : Settings) : Office where
  State := Floor E
  Pending := Hall.Pending E
  Looks f c v f' l := f.glance c v = (f', l)
  Drops f v f' := f.forget v = f'
  Stirs := Floor.Stirs
  Opens p _ := ∃ hasFlags hasPublisher, p = .plain settings hasFlags hasPublisher

/-- What may happen next on the floor. -/
inductive Event (E : Surroundings)
  | reserve (hasFlags hasPublisher : Bool) (q : Request)
  /-- One node of a thread. -/
  | turn (i : Nat)
  /-- A thread is dropped while it awaits a call. -/
  | drop (i : Nat)
  | pass (d : Nat)
  | change (σ : E.State)
  | sweep

def Event.isSweep : Event E → Bool
  | sweep => true
  | _ => false

/-- A run so far. -/
structure Session (E : Surroundings) (settings : Settings) where
  crowd : Crowd (.floor E settings)
  /-- The reservations that have returned, what they returned and when. -/
  returned : List (Nat × Except AdmissionError Reservation × Nat)

namespace Crowd

/-- The thread `i` is dropped if it awaits a call; what it owes is released by threads of their
own. -/
def quit (w : Crowd (.floor E settings)) (i : Nat) : Crowd (.floor E settings) :=
  match w.threads[i]? with
  | some th =>
    if th.dropped = false ∧ th.strand.call?.any Call.isAwaited then
      { w with
        state := w.state.forget th.pending
        threads := w.threads.set i { th with pending := none, dropped := true } ++
          th.strand.owed.map fun r => .start (.release r) }
    else w
  | none => w

def move (w : Crowd (.floor E settings)) : Event E → Crowd (.floor E settings)
  | .reserve hasFlags hasPublisher q =>
    { w with threads := w.threads ++ [.start (.reserve (.plain settings hasFlags hasPublisher) q)] }
  | .turn i => w.turn (fun f c v => some (f.glance c v)) i
  | .drop i => w.quit i
  | .pass d => { w with state := { w.state with now := w.state.now + d } }
  | .change σ => { w with state := { w.state with hall := { w.state.hall with others := σ } } }
  | .sweep => { w with state := { w.state with hall := w.state.hall.sweep w.state.now } }

end Crowd

namespace Session

def start (client : Ulid) (σ : E.State) : Session E settings :=
  ⟨.empty ⟨⟨.fresh client, σ⟩, 0, 0, []⟩, []⟩

/-- The reservation that returns in a step. -/
def news (w w' : Crowd (.floor E settings)) :
    Event E → List (Nat × Except AdmissionError Reservation × Nat)
  | .turn i =>
    match w.outcome? i, w'.outcome? i with
    | none, some r => [(i, r, w'.state.now)]
    | _, _ => []
  | _ => []

def step (s : Session E settings) (e : Event E) : Session E settings :=
  ⟨s.crowd.move e, s.returned ++ news s.crowd (s.crowd.move e) e⟩

def run (s : Session E settings) (events : List (Event E)) : Session E settings :=
  events.foldl step s

end Session

/-! ### Callers of one kind -/

theorem Phase.Asks.isOf {p : Policy} {q : Request} {φ : Phase} {c : Call} (ha : φ.Asks p q c) :
    c.IsOf p.settings := by
  cases ha with
  | rate spare => cases spare <;> trivial
  | permits l cs spare =>
    cases spare with
    | false => exact rfl
    | true => trivial
  | _ => trivial

theorem Call.isOf_of_not_isAwaited {c : Call} (hc : c.isAwaited = false) : c.IsOf settings := by
  cases c with
  | rate => cases hc
  | permits => cases hc
  | _ => trivial

theorem Release.isOf (r : Release) :
    Strand.Always Release.program (fun (_ : Unit) _ => ()) (fun _ _ c => c.IsOf settings)
      (fun _ _ _ => True) () ⟨r.program, []⟩ := by
  have note {guard : GuardName} {ε : Type} (answer : Except ε Bool) :
      Strand.Always Release.program (fun (_ : Unit) _ => ()) (fun _ _ c => c.IsOf settings)
        (fun _ _ _ => True) () ⟨noteFailure guard answer, []⟩ := by
    cases answer with
    | ok b => exact .done trivial
    | error e => exact .call trivial fun _ => .done trivial
  cases r with
  | lock key owner =>
    refine .call trivial fun a => ?_
    rcases a with e | _ | _
    · exact note _
    · exact .done trivial
    · exact .call trivial fun a => note a
  | spareLock held => exact .call trivial fun a => note _
  | permits spare key => exact .call trivial fun a => note _

theorem Task.isOf {k : Task} {t : History} {s : Strand collaborators Release k.Result} {c : Call}
    (hk : ∀ p q, k = .reserve p q → p.settings = settings)
    (hl : Strand.Leads Release.program ⟨k.code, []⟩ t s) (hc : s.call? = some c) :
    c.IsOf settings := by
  cases k with
  | reserve p q =>
    cases ha : c.isAwaited with
    | false => exact Call.isOf_of_not_isAwaited ha
    | true =>
      have hasks := ((reserve_along hl).2.1 c hc ha).1
      exact hk p q rfl ▸ hasks.isOf
  | release r => exact ((Release.isOf r).leads hl).ok_of_call hc

namespace Crowd

section

variable {w w' : Crowd (.floor E settings)} {th th' : Thread (.floor E settings)} {i : Nat}
  {c : Call} {σ : Floor E} {f f' : Floor E} {t : Ticket}

theorem Reach.isOf (hr : Reach σ w) (hi : w.threads[i]? = some th) (hc : th.strand.call? = some c) :
    c.IsOf settings := by
  refine Task.isOf (fun p q hk => ?_) (hr.led.leads i th hi) hc
  obtain ⟨hasFlags, hasPublisher, rfl⟩ := hr.opened th (List.mem_of_getElem? hi) p q hk
  rfl

theorem Reach.quit (hr : Reach σ w) (i : Nat) : Reach σ (w.quit i) := by
  unfold Crowd.quit
  split
  · rename_i th hi
    split
    · rename_i hq
      obtain ⟨c, hc, ha⟩ := (Option.any_eq_true _ _).1 hq.2
      exact hr.step (.drop w i th c _ hi hq.1 hc ha rfl)
    · exact hr
  · exact hr

theorem Reach.move (hr : Reach σ w) (e : Event E) : Reach σ (w.move e) := by
  cases e with
  | reserve hasFlags hasPublisher q => exact hr.step (.arrive w _ q ⟨hasFlags, hasPublisher, rfl⟩)
  | turn i =>
    show Reach σ (w.turn (fun f c v => some (Floor.glance f c v)) i)
    exact hr.turn i fun _ _ _ _ _ _ hl => Option.some.inj hl
  | drop i => exact hr.quit i
  | pass d => exact hr.step (.stir w _ (.pass d))
  | change σ => exact hr.step (.stir w _ (.change σ))
  | sweep => exact hr.step (.stir w _ .sweep)

/-- The callers are such as `Pruned` asks for, and the store knows whom it keeps waiting. -/
structure Tended (w : Crowd (.floor E settings)) : Prop where
  orderly : w.state.hall.store.Orderly settings.rate
  waits : ∀ (i : Nat) th v, w.threads[i]? = some th → th.pending = some v →
    v.1 < w.state.tickets ∧ v.2.IsWhole settings.rate ∧
      ∃ c, th.strand.call? = some c ∧ v.2.isGuard = c.isAttempt
  apart : ∀ (i j : Nat) th th' v v', w.threads[i]? = some th → w.threads[j]? = some th' →
    th.pending = some v → th'.pending = some v' → v.1 = v'.1 → i = j
  attends : w.state.hall.store.Attends fun t key =>
    ∃ (i : Nat) (th : Thread (.floor E settings)) (x : Hall.Waiting E),
      w.threads[i]? = some th ∧ th.pending = some (t, x) ∧ x.pool? = some key

namespace Tended

theorem start (client : Ulid) (σ : E.State) :
    Tended (.empty ⟨⟨.fresh client, σ⟩, 0, 0, []⟩ : Crowd (.floor E settings)) where
  orderly := ⟨nofun, nofun⟩
  waits i th v hi := by simp [empty] at hi
  apart i j th th' v v' hi := by simp [empty] at hi
  attends := by
    refine ⟨fun _ => List.nodup_nil, fun key t => ⟨fun ht => absurd ht List.not_mem_nil, ?_⟩⟩
    rintro ⟨i, th, x, hi, -⟩
    simp [empty] at hi

/-- The store knows of a call what is remembered of it, and nothing of a new one. -/
theorem knows (h : Tended w) (hi : w.threads[i]? = some th) :
    Hall.Knows w.state.hall.store (w.state.ticket th.pending)
      ((th.pending.map (·.2)).bind Hall.Waiting.pool?) := by
  refine ⟨h.attends.nodup, fun key => (h.attends.mem key _).trans ?_⟩
  cases hv : th.pending with
  | none =>
    refine ⟨?_, nofun⟩
    rintro ⟨j, th', x, hj, hx, -⟩
    obtain ⟨hlt, -⟩ := h.waits j th' _ hj hx
    exact absurd hlt (Nat.lt_irrefl _)
  | some v =>
    obtain ⟨t, x⟩ := v
    constructor
    · rintro ⟨j, th', x', hj, hx', hkey⟩
      obtain rfl := h.apart j i th' th _ _ hj hi hx' hv rfl
      obtain rfl := Option.some.inj (hj.symm.trans hi)
      cases hx'.symm.trans hv
      exact hkey
    · intro hkey
      exact ⟨i, th, x, hi, hv, hkey⟩

/-- A thread is at another place, and its call has settled. -/
theorem set (h : Tended w) (hi : w.threads[i]? = some th) {log : List (Nat × Asked collaborators)}
    (ho : f.hall.store.Orderly settings.rate) (hf : w.state.tickets ≤ f.tickets)
    (hs : w.state.hall.store.Settles f.hall.store (w.state.ticket th.pending)
      ((th'.pending.map (·.2)).bind Hall.Waiting.pool?))
    (hv : ∀ v, th'.pending = some v → v.1 = w.state.ticket th.pending ∧ v.1 < f.tickets ∧
      v.2.IsWhole settings.rate ∧ ∃ c, th'.strand.call? = some c ∧ v.2.isGuard = c.isAttempt) :
    Tended ⟨f, w.threads.set i th', log⟩ := by
  have hother : ∀ (j : Nat) thj v, j ≠ i → w.threads[j]? = some thj → thj.pending = some v →
      v.1 ≠ w.state.ticket th.pending := by
    intro j thj v hji hj hvj he
    cases hp : th.pending with
    | none =>
      have hlt := (h.waits j thj v hj hvj).1
      rw [hp] at he
      rw [he] at hlt
      exact Nat.lt_irrefl w.state.tickets hlt
    | some u =>
      rw [hp] at he
      exact hji (h.apart j i thj th v u hj hi hvj hp he)
  refine ⟨ho, ?waits, ?apart, ?attends⟩
  case waits =>
    intro j thj v hj hvj
    rcases getElem?_set_cases hj with ⟨rfl, rfl⟩ | ⟨hji, hj⟩
    · exact (hv v hvj).2
    · obtain ⟨hlt, hrest⟩ := h.waits j thj v hj hvj
      exact ⟨Nat.lt_of_lt_of_le hlt hf, hrest⟩
  case apart =>
    intro j k thj thk v v' hj hk hvj hvk he
    rcases getElem?_set_cases hj with ⟨rfl, rfl⟩ | ⟨hji, hj'⟩
    · rcases getElem?_set_cases hk with ⟨rfl, rfl⟩ | ⟨hki, hk⟩
      · rfl
      · exact absurd (he.symm.trans (hv v hvj).1) (hother k thk v' hki hk hvk)
    · rcases getElem?_set_cases hk with ⟨rfl, rfl⟩ | ⟨hki, hk'⟩
      · exact absurd (he.trans (hv v' hvk).1) (hother j thj v hji hj' hvj)
      · exact h.apart j k thj thk v v' hj' hk' hvj hvk he
  case attends =>
    refine h.attends.settles hs (fun key => ?_) fun u key hu => ?_
    · constructor
      · rintro ⟨j, thj, x, hj, hx, hkey⟩
        rcases getElem?_set_cases hj with ⟨rfl, rfl⟩ | ⟨hji, hj⟩
        · rw [hx]
          exact hkey
        · exact absurd rfl (hother j thj _ hji hj hx)
      · intro hkey
        obtain ⟨x, hx, hkey⟩ := Option.bind_eq_some_iff.1 hkey
        obtain ⟨v, hvx, rfl⟩ := Option.map_eq_some_iff.1 hx
        refine ⟨i, th', v.2, ?_, ?_, hkey⟩
        · exact List.getElem?_set_self (List.getElem?_eq_some_iff.1 hi).1
        · rw [hvx, ← (hv v hvx).1]
    · constructor
      · rintro ⟨j, thj, x, hj, hx, hkey⟩
        rcases getElem?_set_cases hj with ⟨rfl, rfl⟩ | ⟨hji, hj⟩
        · exact absurd (hv _ hx).1 hu
        · exact ⟨j, thj, x, hj, hx, hkey⟩
      · rintro ⟨j, thj, x, hj, hx, hkey⟩
        have hji : i ≠ j := by
          rintro rfl
          obtain rfl := Option.some.inj (hj.symm.trans hi)
          refine hu ?_
          rw [hx]
          rfl
        exact ⟨j, thj, x, (List.getElem?_set_ne hji).trans hj, hx, hkey⟩

/-- Threads that come wait for nothing. -/
theorem append (h : Tended w) (ks : List Task) :
    Tended { w with threads := w.threads ++ ks.map Thread.start } := by
  have hold : ∀ (j : Nat) thj v, (w.threads ++ ks.map Thread.start)[j]? = some thj →
      thj.pending = some v → w.threads[j]? = some thj := by
    intro j thj v hj hv
    rcases getElem?_append_map hj with hj | ⟨-, k, rfl⟩
    · exact hj
    · cases hv
  refine ⟨h.orderly, ?waits, ?apart, ?attends⟩
  case waits => exact fun j thj v hj hv => h.waits j thj v (hold j thj v hj hv) hv
  case apart =>
    exact fun j k thj thk v v' hj hk hv hv' =>
      h.apart j k thj thk v v' (hold j thj v hj hv) (hold k thk v' hk hv') hv hv'
  case attends =>
    refine ⟨h.attends.nodup, fun key t => (h.attends.mem key t).trans ⟨?_, ?_⟩⟩
    · rintro ⟨j, thj, x, hj, hx⟩
      have hlt := (List.getElem?_eq_some_iff.1 hj).1
      exact ⟨j, thj, x, (List.getElem?_append_left hlt).trans hj, hx⟩
    · rintro ⟨j, thj, x, hj, hx, hkey⟩
      exact ⟨j, thj, x, hold j thj _ hj hx, hx, hkey⟩

/-- A step that the callers have no part in. -/
theorem besides (h : Tended w) (ho : f.hall.store.Orderly settings.rate)
    (ht : f.tickets = w.state.tickets)
    (hc : ∀ key, f.hall.store.callers key = w.state.hall.store.callers key) :
    Tended { w with state := f } where
  orderly := ho
  waits i th v hi hv := by
    show v.1 < f.tickets ∧ _
    rw [ht]
    exact h.waits i th v hi hv
  apart := h.apart
  attends := h.attends.congr hc

/-- A node without a call is one of a thread that waits for nothing. -/
theorem silent (h : Tended w) (hi : w.threads[i]? = some th) (hc : th.strand.call? = none)
    (hp : th'.pending = th.pending) : Tended ⟨w.state, w.threads.set i th', w.log⟩ := by
  have hn : th.pending = none := by
    by_contra hne
    obtain ⟨v, hv⟩ := Option.ne_none_iff_exists'.1 hne
    obtain ⟨-, -, c, hc', -⟩ := h.waits i th v hi hv
    cases hc.symm.trans hc'
  rw [hn] at hp
  have hk := h.knows hi
  rw [hn] at hk
  refine h.set hi h.orderly (Nat.le_refl _) ?_ fun v hv => ?_
  · rw [hn, hp]
    exact .of_pools rfl hk.not_mem
  · cases hp.symm.trans hv

theorem leaves (h : Tended w) (hi : w.threads[i]? = some th) (hc : th.strand.call? = some c)
    (ho : c.IsOf settings) :
    Hall.Leaves settings.rate c.isAttempt w.state.hall.store (w.state.ticket th.pending)
      (w.state.glance c th.pending).1.hall.store (w.state.glance c th.pending).2 := by
  refine Hall.look_leaves h.orderly ho (fun x hx => ?_) (h.knows hi)
  obtain ⟨v, hv, rfl⟩ := Option.map_eq_some_iff.1 hx
  obtain ⟨-, hw, c', hc', hg⟩ := h.waits i th v hi hv
  cases hc.symm.trans hc'
  exact ⟨hg, hw⟩

theorem quit (h : Tended w) (i : Nat) : Tended (w.quit i) := by
  unfold Crowd.quit
  split
  · rename_i th hi
    split
    · have hgone : Tended ⟨w.state.forget th.pending,
          w.threads.set i { th with pending := none, dropped := true }, w.log⟩ := by
        have hk := h.knows hi
        cases hv : th.pending with
        | none =>
          rw [hv] at hk
          refine h.set hi h.orderly (Nat.le_refl _) ?_ nofun
          rw [hv]
          exact .of_pools rfl hk.not_mem
        | some v =>
          obtain ⟨t, x⟩ := v
          rw [hv] at hk
          cases x with
          | guard x =>
            refine h.set hi h.orderly.cancel (Nat.le_refl _) ?_ nofun
            rw [hv]
            exact Local.Store.cancel_settles hk.nodup hk.mem
          | other x =>
            refine h.set hi h.orderly (Nat.le_refl _) ?_ nofun
            rw [hv]
            exact .of_pools rfl hk.not_mem
      have happ := hgone.append (th.strand.owed.map .release)
      rw [List.map_map] at happ
      exact happ
    · exact h
  · exact h

theorem turn (h : Tended w) (hr : Reach σ w) (i : Nat) :
    Tended (w.turn (fun f c v => some (f.glance c v)) i) := by
  unfold Crowd.turn
  split
  · rename_i task c k owed pending hi
    have hl := h.leaves hi rfl (hr.isOf hi rfl)
    have hle : w.state.tickets ≤ (w.state.glance c pending).1.tickets := by
      show _ ≤ if pending.isSome then w.state.tickets else w.state.tickets + 1
      split <;> omega
    have hlt : w.state.ticket pending < (w.state.glance c pending).1.tickets := by
      cases pending with
      | none => exact Nat.lt_succ_self _
      | some v => exact (h.waits i _ v hi rfl).1
    dsimp only at hl ⊢
    generalize w.state.glance c pending = x at hl hle hlt
    obtain ⟨f, a | v⟩ := x
    · exact h.set hi hl.orderly hle (hl.answered a rfl) nofun
    · obtain ⟨ht, hg, hw, hs⟩ := hl.blocked v rfl
      refine h.set hi hl.orderly hle hs fun v' hv' => ?_
      cases hv'
      exact ⟨ht, ht ▸ hlt, hw, c, rfl, hg⟩
  · rename_i hi
    exact h.silent hi rfl rfl
  · rename_i hi
    exact h.silent hi rfl rfl
  · rename_i hi
    exact h.silent hi rfl rfl
  · exact h

theorem move (h : Tended w) (hr : Reach σ w) (e : Event E) (he : e.isSweep = false) :
    Tended (w.move e) := by
  cases e with
  | reserve hasFlags hasPublisher q => exact h.append [.reserve _ q]
  | turn i => exact h.turn hr i
  | drop i => exact h.quit i
  | pass d => exact h.besides h.orderly rfl fun _ => rfl
  | change σ => exact h.besides h.orderly rfl fun _ => rfl
  | sweep => cases he

end Tended

/-! ### Two runs -/

end

end Crowd

/-- The second floor is the first one with the store pruned. -/
structure Floor.Pruned (f f' : Floor E) : Prop where
  hall : Hall.Pruned f.now f.hall f'.hall
  now : f'.now = f.now
  tickets : f'.tickets = f.tickets
  woken : f'.woken = f.woken

namespace Crowd

variable {w w' : Crowd (.floor E settings)} {th : Thread (.floor E settings)} {i : Nat} {c : Call}
  {σ : Floor E} {f' : Floor E}

/-- And nothing else is different. -/
structure Pruned (w w' : Crowd (.floor E settings)) : Prop where
  state : w.state.Pruned w'.state
  threads : w'.threads = w.threads
  log : w'.log = w.log

namespace Pruned

theorem refl : Pruned w w := ⟨⟨⟨.refl, rfl⟩, rfl, rfl, rfl⟩, rfl, rfl⟩

theorem glance (hp : w.state.Pruned f') (h : Tended w) (hi : w.threads[i]? = some th)
    (hc : th.strand.call? = some c) (ho : c.IsOf settings) :
    (w.state.glance c th.pending).1.Pruned (f'.glance c th.pending).1 ∧
      (f'.glance c th.pending).2 = (w.state.glance c th.pending).2 := by
  have ht : f'.ticket th.pending = w.state.ticket th.pending := by
    unfold Floor.ticket
    rw [hp.tickets]
  have hv : ∀ x, th.pending.map (·.2) = some x →
      x.isGuard = c.isAttempt ∧ x.IsWhole settings.rate := by
    intro x hx
    obtain ⟨v, hv, rfl⟩ := Option.map_eq_some_iff.1 hx
    obtain ⟨-, hw, c', hc', hg⟩ := h.waits i th v hi hv
    cases hc.symm.trans hc'
    exact ⟨hg, hw⟩
  obtain ⟨hh, he⟩ := Hall.look_pruned hp.hall h.orderly ho hv (h.knows hi)
  unfold Floor.glance
  rw [ht, hp.now]
  dsimp only
  refine ⟨⟨hh, rfl, ?_, ?_⟩, ?_⟩
  · show (if _ then f'.tickets else f'.tickets + 1) = if _ then _ else _
    rw [hp.tickets]
  · rw [hp.woken, he]
  · rw [he]

theorem turn (hp : Pruned w w') (h : Tended w) (hr : Reach σ w) (i : Nat) :
    Pruned (w.turn (fun f c v => some (f.glance c v)) i)
      (w'.turn (fun f c v => some (f.glance c v)) i) := by
  unfold Crowd.turn
  rw [hp.threads]
  split
  · rename_i task c k owed pending hi
    obtain ⟨hf, he⟩ := glance hp.state h hi rfl (hr.isOf hi rfl)
    dsimp only at hf he ⊢
    generalize w.state.glance c pending = x at hf he
    generalize w'.state.glance c pending = x' at hf he
    obtain ⟨f, l⟩ := x
    obtain ⟨f', l'⟩ := x'
    obtain rfl : l' = l := he
    cases l' with
    | answered a => exact ⟨hf, rfl, by rw [hp.log]⟩
    | blocked v => exact ⟨hf, rfl, hp.log⟩
  · exact ⟨hp.state, rfl, hp.log⟩
  · exact ⟨hp.state, rfl, hp.log⟩
  · exact ⟨hp.state, rfl, hp.log⟩
  · exact hp

theorem forget (hp : w.state.Pruned f') (h : Tended w) (hi : w.threads[i]? = some th) :
    (w.state.forget th.pending).Pruned (f'.forget th.pending) := by
  have hk := h.knows hi
  cases hv : th.pending with
  | none => exact hp
  | some v =>
    obtain ⟨t, x⟩ := v
    rw [hv] at hk
    have hx : Hall.Knows w.state.hall.store t x.pool? := hk
    obtain ⟨hh, he⟩ := Hall.cancel_pruned hp.hall hx
    simp only [Floor.forget, hp.now]
    exact ⟨hh, rfl, hp.tickets, by rw [hp.woken, he]⟩

theorem quit (hp : Pruned w w') (h : Tended w) (i : Nat) : Pruned (w.quit i) (w'.quit i) := by
  unfold Crowd.quit
  rw [hp.threads]
  split
  · rename_i th hi
    split
    · exact ⟨forget hp.state h hi, rfl, hp.log⟩
    · exact hp
  · exact hp

/-- Both runs make a move. -/
theorem move (hp : Pruned w w') (h : Tended w) (hr : Reach σ w) (e : Event E)
    (he : e.isSweep = false) : Pruned (w.move e) (w'.move e) := by
  have hnow := hp.state.now
  cases e with
  | reserve hasFlags hasPublisher q => exact ⟨hp.state, congrArg (· ++ _) hp.threads, hp.log⟩
  | turn i => exact hp.turn h hr i
  | drop i => exact hp.quit h i
  | pass d =>
    have hle : w.state.now ≤ w.state.now + d := Nat.le_add_right ..
    have hlater := hp.state.hall.store.later hle
    exact ⟨⟨⟨hlater, hp.state.hall.others⟩, congrArg (· + d) hnow, hp.state.tickets, hp.state.woken⟩,
      hp.threads, hp.log⟩
  | change σ =>
    exact ⟨⟨⟨hp.state.hall.store, rfl⟩, hnow, hp.state.tickets, hp.state.woken⟩, hp.threads, hp.log⟩
  | sweep => cases he

/-- The second run sweeps, where the first one does nothing. -/
theorem sweep (hp : Pruned w w') : Pruned w (w'.move .sweep) := by
  have hs : w.state.hall.store.Pruned w.state.now (w'.state.hall.store.sweep w'.state.now) := by
    rw [hp.state.now]
    exact hp.state.hall.store.sweep
  exact ⟨⟨⟨hs, hp.state.hall.others⟩, hp.state.now, hp.state.tickets, hp.state.woken⟩, hp.threads,
    hp.log⟩

end Pruned

end Crowd

namespace Session

variable {s s' : Session E settings} {e : Event E} {σ : Floor E}

theorem news_pruned {w w' v v' : Crowd (.floor E settings)} (h : Crowd.Pruned w w')
    (h' : Crowd.Pruned v v') (e : Event E) : news w' v' e = news w v e := by
  unfold news Crowd.outcome?
  rw [h.threads, h'.threads, h'.state.now]

/-- A run with sweeps beside the one without them. -/
structure Follows (s s' : Session E settings) (σ : Floor E) : Prop where
  crowd : s.crowd.Pruned s'.crowd
  returned : s'.returned = s.returned
  tended : s.crowd.Tended
  reach : s.crowd.Reach σ

theorem Follows.step (h : Follows s s' σ) (he : e.isSweep = false) :
    Follows (s.step e) (s'.step e) σ := by
  have hmove := h.crowd.move h.tended h.reach e he
  refine ⟨hmove, ?_, h.tended.move h.reach e he, h.reach.move e⟩
  show s'.returned ++ _ = s.returned ++ _
  rw [h.returned, news_pruned h.crowd hmove]

theorem Follows.sweep (h : Follows s s' σ) : Follows s (s'.step .sweep) σ :=
  ⟨h.crowd.sweep, (List.append_nil _).trans h.returned, h.tended, h.reach⟩

theorem Follows.run (h : Follows s s' σ) (events : List (Event E)) :
    Follows (s.run (events.filter fun e => !e.isSweep)) (s'.run events) σ := by
  induction events generalizing s s' with
  | nil => exact h
  | cons e events ih =>
    cases he : e.isSweep with
    | false =>
      rw [List.filter_cons_of_pos (by rw [he]; rfl)]
      exact ih (h.step he)
    | true =>
      rw [List.filter_cons_of_neg (by rw [he]; exact nofun)]
      cases e with
      | sweep => exact ih h.sweep
      | _ => cases he

/-- The reservations, the calls that they make and the answers that they get, the tickets that are
woken and all surroundings are the same whether the store is swept or not; so is what returns, and
when. -/
theorem run_unnoticed (client : Ulid) (σ : E.State) (events : List (Event E)) :
    let swept := (start client σ : Session E settings).run events
    let s := (start client σ : Session E settings).run (events.filter fun e => !e.isSweep)
    swept.returned = s.returned ∧ swept.crowd.log = s.crowd.log ∧
      swept.crowd.threads = s.crowd.threads ∧
      swept.crowd.state.hall.others = s.crowd.state.hall.others ∧
      swept.crowd.state.now = s.crowd.state.now ∧
      swept.crowd.state.tickets = s.crowd.state.tickets ∧
      swept.crowd.state.woken = s.crowd.state.woken := by
  intro swept s
  have hstart : Follows (start client σ : Session E settings) (start client σ)
      ⟨⟨.fresh client, σ⟩, 0, 0, []⟩ := ⟨.refl, rfl, .start client σ, .start⟩
  have h := hstart.run events
  exact ⟨h.returned, h.crowd.log, h.crowd.threads, h.crowd.state.hall.others, h.crowd.state.now,
    h.crowd.state.tickets, h.crowd.state.woken⟩

end Session

end Turnstile.Admission
