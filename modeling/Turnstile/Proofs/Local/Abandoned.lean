import Turnstile.Proofs.Local.Revival

/-!
# Permits that nobody gives back

A pool that nobody has touched for longer than its lifetime has all its permits for the next call
(`Traffic.run_healed`). A release that has something to give back touches a pool, and so does every
look of an attempt, granted or not: callers who try again within the lifetime keep abandoned permits
out for as long as they try (`Traffic.retries_denied`). To wait, to time out and to be dropped does
not touch a pool.
-/

namespace Turnstile.Local

namespace Pool

variable {p p' : Pool} {plan : PoolPlan} {n now last : Nat} {life : Duration}

/-- The pool lives for `life` and has not been touched after `last`. -/
structure Rests (last : Nat) (life : Duration) (p : Pool) : Prop where
  touched : p.lastTouched ≤ last
  lifetime : p.lifetime = life

theorem Alike.rests (h : Alike p p') (hp : p.Rests last life) : p'.Rests last life where
  touched := h.lastTouched ▸ hp.touched
  lifetime := h.lifetime.trans hp.lifetime

theorem rests_reshape : (p.reshape plan now).Rests now plan.lifetime := by
  unfold reshape
  dsimp only
  split <;> exact ⟨Nat.le_refl _, rfl⟩

theorem rests_take : (p.take plan n now).1.Rests now plan.lifetime := by
  have hr : (p.reshape plan now).Rests now plan.lifetime := rests_reshape
  unfold take
  dsimp only
  split
  · exact hr
  · split
    · exact ⟨hr.touched, hr.lifetime⟩
    · exact hr

theorem rests_giveBack (h : p.outstanding ≠ []) : (p.giveBack now).1.Rests now p.lifetime := by
  unfold giveBack
  split
  · contradiction
  · exact ⟨Nat.le_refl _, rfl⟩

theorem Rests.isExpired (h : p.Rests last life) (hlong : life < Clock.since now last) :
    p.isExpired now = true := by
  have hle : (Clock.since now last).nanos ≤ (Clock.since now p.lastTouched).nanos := by
    have := h.touched
    simp only [Clock.since, Duration.ofNanos]
    omega
  have hlt : p.lifetime.nanos < (Clock.since now last).nanos := h.lifetime ▸ hlong
  exact decide_eq_true (Nat.lt_of_lt_of_le hlt hle)

theorem outstanding_reshape (h : p.isExpired now = true) : (p.reshape plan now).outstanding = [] := by
  unfold reshape
  rw [if_pos h]

/-- A look at a pool that has all its permits takes from them what it asks for. -/
theorem take_of_whole (ha : (p.reshape plan now).available = plan.capacity.toNat)
    (ho : (p.reshape plan now).outstanding = []) (hn : n ≤ plan.capacity.toNat) :
    (p.take plan n now).2 = .granted ∧
      (p.take plan n now).1.available = plan.capacity.toNat - n ∧
      (p.take plan n now).1.outstanding = [n] := by
  have hg : (p.take plan n now).2 = .granted := by
    rw [take_answer, ha, if_neg (Nat.not_lt.2 hn), if_pos hn]
  obtain ⟨-, -, hav, hout⟩ := take_of_granted hg
  exact ⟨hg, ha ▸ hav, ho ▸ hout⟩

end Pool

/-- A pool that has expired, or is not there, grants whatever its capacity allows. -/
theorem Store.begin_permits_of_isExpired {s : Store} {t : Ticket} {now : Nat} {key : String}
    {plan : PoolPlan} {demand : PoolDemand}
    (hcheck : (Attempt.permits key plan demand).check = .ok ())
    (hfit : demand.permits ≤ plan.capacity)
    (h : ∀ p, s.pools.get? key = some p → p.isExpired now = true) :
    (s.begin t now (.permits key plan demand)).2 = .done (.ok (some t)) ∧
      ∃ p, (s.begin t now (.permits key plan demand)).1.pools.get? key = some p ∧
        p.available = (plan.capacity - demand.permits).toNat ∧
        p.outstanding = [demand.permits.toNat] := by
  have hwhole : ((s.poolFor key plan now).reshape plan now).available = plan.capacity.toNat ∧
      ((s.poolFor key plan now).reshape plan now).outstanding = [] := by
    unfold poolFor
    cases hp : s.pools.get? key with
    | none =>
      rw [Option.getD_none, Pool.reshape_full]
      exact ⟨rfl, rfl⟩
    | some p => exact ⟨Pool.available_reshape (.inl (h p hp)), Pool.outstanding_reshape (h p hp)⟩
  have hfit' : demand.permits.toNat ≤ plan.capacity.toNat := UInt32.le_iff_toNat_le.1 hfit
  obtain ⟨hgrant, havail, hout⟩ := Pool.take_of_whole hwhole.1 hwhole.2 hfit'
  obtain ⟨p, hp, hpools⟩ := @tryPermits_pools s t now demand.permits.toNat
    (now + demand.wait.nanos) key plan
  rw [begin_permits_of_check hcheck]
  refine ⟨tryPermits_of_granted hgrant, p, ?_, ?_, ?_⟩
  · rw [hpools, if_pos rfl]
  · rw [hp.available, havail, UInt32.toNat_sub_of_le _ _ hfit]
  · rw [hp.outstanding, hout]

namespace Traffic

variable {s : Traffic} {key : String} {m : Move} {moves : List Move} {o o' : Option Pool}
  {last : Nat} {life : Duration}

/-- Every call for permits of `key` whose input is good names the lifetime `life`. -/
def Lasting (log : List Entry) (key : String) (life : Duration) : Prop :=
  ∀ t plan demand, .arrived t (.permits key plan demand) ∈ log →
    (Attempt.permits key plan demand).check = .ok () → plan.lifetime = life

/-- No move looks at the pool of `key` or gives something back to it. -/
def leavesAlone (s : Traffic) (key : String) (moves : List Move) : Bool :=
  allFit step (fun s m => !s.touches key m) s moves

/-- A move that does not touch a pool keeps its age and its lifetime. -/
theorem Shift.rests (h : Shift s key m o o')
    (ht : s.touches key m = true → s.now ≤ last ∧ Lasting (s.step m).log key life)
    (ho : ∀ p, o = some p → p.Rests last life) : ∀ p, o' = some p → p.Rests last life := by
  rintro p' rfl
  cases h with
  | alike h => exact h.rests (ho _ rfl)
  | @back p hm =>
    by_cases hout : p.outstanding = []
    · rw [Pool.giveBack_nil hout]
      exact ho p rfl
    · have hr : (p.giveBack s.now).1.Rests s.now p.lifetime := Pool.rests_giveBack hout
      exact ⟨Nat.le_trans hr.touched (ht (hm hout)).1, hr.lifetime.trans (ho p rfl).lifetime⟩
  | @looked _ p _ t plan demand hp harr hcheck hgrant hp' hm =>
    obtain ⟨hle, hlife⟩ := ht hm
    have hr : (p.take plan demand.permits.toNat s.now).1.Rests s.now plan.lifetime :=
      Pool.rests_take
    exact hp'.rests ⟨Nat.le_trans hr.touched hle, hr.lifetime.trans (hlife _ _ _ harr hcheck)⟩

/-- The pools of a store, by their lifetimes, were touched up to now at most. -/
structure Aged (s : Traffic) : Prop where
  known : Known s
  rests : ∀ key life, Lasting s.log key life →
    ∀ p, s.store.pools.get? key = some p → p.Rests s.now life

theorem Aged.start (client : Ulid) : Aged (start client) := ⟨.start client, nofun⟩

theorem Aged.step (h : Aged s) (m : Move) : Aged (s.step m) where
  known := h.known.step m
  rests key life hlife := by
    have hlife₀ : Lasting s.log key life :=
      fun t plan demand harr => hlife t plan demand (log_subset harr)
    refine (shift_step h.known m).rests (fun _ => ⟨le_now_step m, hlife⟩) fun p hp => ?_
    have hr : p.Rests s.now life := h.rests key life hlife₀ p hp
    exact ⟨Nat.le_trans hr.touched (le_now_step m), hr.lifetime⟩

theorem run_aged (client : Ulid) (moves : List Move) : Aged ((start client).run moves) :=
  run_induction (.start client) (fun _ m h => h.step m) moves

theorem rests_run (hk : Known s) (h : ∀ p, s.store.pools.get? key = some p → p.Rests last life)
    (hm : s.leavesAlone key moves = true) :
    ∀ p, (s.run moves).store.pools.get? key = some p → p.Rests last life := by
  induction moves generalizing s with
  | nil => exact h
  | cons m moves ih =>
    obtain ⟨hfirst, hrest⟩ := Bool.and_eq_true_iff.1 hm
    have hstill : s.touches key m = false := by simpa using hfirst
    refine ih (hk.step m) ?_ hrest
    refine (shift_step hk m).rests (fun ht => ?_) h
    cases hstill.symm.trans ht

/-- A call that finds its pool untouched for longer than the lifetime is granted at once, and
nothing else is out then, whatever was not given back, and whoever asked before or waits still. -/
theorem run_healed (client : Ulid) (before since : List Move) (key : String) (plan : PoolPlan)
    (demand : PoolDemand)
    (hlife : Lasting ((start client).run before).log key plan.lifetime)
    (hsince : ((start client).run before).leavesAlone key since = true)
    (hlong : plan.lifetime < Clock.since ((start client).run (before ++ since)).now
      ((start client).run before).now)
    (hcheck : (Attempt.permits key plan demand).check = .ok ())
    (hfit : demand.permits ≤ plan.capacity) :
    let s := (start client).run (before ++ since)
    let call := Attempt.permits key plan demand
    s.note (.begin call) = some (.answered s.tickets call (.ok (some s.tickets))) ∧
      ∃ p, (s.step (.begin call)).store.pools.get? key = some p ∧
        p.available = (plan.capacity - demand.permits).toNat ∧
        p.outstanding = [demand.permits.toNat] := by
  intro s call
  have hs : s = ((start client).run before).run since := List.foldl_append ..
  have haged := run_aged client before
  have hexpired : ∀ p, s.store.pools.get? key = some p → p.isExpired s.now = true := by
    intro p hp
    exact (rests_run haged.known (haged.rests key _ hlife) hsince p (hs ▸ hp)).isExpired hlong
  obtain ⟨hgrant, hpool⟩ := @Store.begin_permits_of_isExpired s.store s.tickets s.now key plan
    demand hcheck hfit hexpired
  have hst : (s.step (.begin call)).store = (s.store.begin s.tickets s.now call).1 :=
    settle_store ..
  refine ⟨?_, hst ▸ hpool⟩
  show ((s.store.begin s.tickets s.now call).2.answer?.map _) = _
  rw [hgrant]
  rfl

def single : PoolPlan := ⟨1, .ofMillis 100⟩

/-- A permit is taken and never given back; another caller waits for it for 50 ms. -/
def takenAway : List Move :=
  [.begin (.permits "k" single ⟨1, .zero⟩), .pass 60,
    .begin (.permits "k" single ⟨1, .ofMillis 50⟩)]

/-- The second caller waits in vain, and 101 ms after he came the permit is there again. -/
theorem takenAway_healed :
    let since : List Move := [.pass 50, .look 1, .pass 51]
    ((start ⟨0⟩).run takenAway).leavesAlone "k" since = true ∧
      answersOf ((start ⟨0⟩).run (takenAway ++ since)).log = [(0, .ok (some 0)), (1, .ok none)] ∧
      ((start ⟨0⟩).run (takenAway ++ since)).note (.begin (.permits "k" single ⟨1, .zero⟩)) =
        some (.answered 2 (.permits "k" single ⟨1, .zero⟩) (.ok (some 2))) := by
  have hlife : Lasting ((start ⟨0⟩).run takenAway).log "k" single.lifetime := by
    intro t plan demand harr _
    have hlog : ((start ⟨0⟩).run takenAway).log =
        [.arrived 0 (.permits "k" single ⟨1, .zero⟩), .asked "k" 1 0,
          .answered 0 (.permits "k" single ⟨1, .zero⟩) (.ok (some 0)),
          .arrived 1 (.permits "k" single ⟨1, .ofMillis 50⟩), .asked "k" 1 1] := rfl
    rw [hlog] at harr
    rcases (by simpa using harr : _ ∨ _) with ⟨-, rfl, -⟩ | ⟨-, rfl, -⟩
    · rfl
    · rfl
  refine ⟨by decide +kernel, by decide +kernel, ?_⟩
  exact (run_healed ⟨0⟩ takenAway [.pass 50, .look 1, .pass 51] "k" single ⟨1, .zero⟩ hlife
    (by decide +kernel) (by decide +kernel) rfl (by decide)).1

/-- The permit was taken 120 ms ago, and nothing was given back since, but a call that was refused
in between has touched the pool. -/
theorem retries_denied :
    let call : Move := .begin (.permits "k" single ⟨1, .zero⟩)
    let s := (start ⟨0⟩).run [call, .pass 60, call, .pass 60]
    answersOf s.log = [(0, .ok (some 0)), (1, .ok none)] ∧
      single.lifetime < Clock.since s.now (start ⟨0⟩).now ∧
      answersOf (s.step call).log = [(0, .ok (some 0)), (1, .ok none), (2, .ok none)] := by
  decide +kernel

end Traffic

end Turnstile.Local
