import Turnstile.Proofs.Local.Sound

/-!
# Overdrawn pools

A pool counts what is available and, when its capacity changes, moves that count by the same
amount, but not below zero. What is cut off there comes back when the capacity grows again, so more
permits can be out than the capacity allows. How many more is bounded by the `overdraft`: the most
by which the permits that were out exceeded the capacity that some caller named, since a caller
last found none out.
-/

namespace Turnstile.Local

namespace Pool

variable {p p' : Pool} {plan : PoolPlan} {n now d : Nat} {t : Ticket}

/-- All permits, available or out, are within the capacity and `d` more. -/
def Within (p : Pool) (d : Nat) : Prop := p.available + p.outstanding.sum ≤ p.capacity + d

/-- An overdraft of `d` after a look for a pool of `capacity` while `out` permits are out. -/
def overdrawn (d capacity out : Nat) : Nat := if out = 0 then 0 else max d (out - capacity)

/-- Two pools that differ in who waits. -/
structure Alike (p p' : Pool) : Prop where
  capacity : p'.capacity = p.capacity
  available : p'.available = p.available
  outstanding : p'.outstanding = p.outstanding
  lastTouched : p'.lastTouched = p.lastTouched
  lifetime : p'.lifetime = p.lifetime

theorem Alike.refl : Alike p p := ⟨rfl, rfl, rfl, rfl, rfl⟩

theorem alike_leave : Alike p (p.leave t) := ⟨rfl, rfl, rfl, rfl, rfl⟩

theorem Alike.within (h : Alike p p') (hw : p.Within d) : p'.Within d := by
  unfold Within
  rw [h.capacity, h.available, h.outstanding]
  exact hw

theorem within_full : (full plan now).Within d := by
  simp [Within, full]

theorem out_full : (full plan now).out now = 0 := by
  unfold out
  split <;> rfl

theorem within_reshape (h : p.Within d) :
    (p.reshape plan now).Within (overdrawn d plan.capacity.toNat (p.out now)) := by
  unfold Within at h
  by_cases he : p.isExpired now = true
  · simp [Within, reshape, he]
  · simp only [Within, reshape, he, out, overdrawn]
    by_cases ho : p.outstanding.sum = 0
    · simp only [ho, Bool.false_eq_true, ↓reduceIte]
      omega
    · simp only [ho, Bool.false_eq_true, ↓reduceIte]
      omega

/-- Only a pool with available permits is not cut off, and it keeps the old bound. -/
theorem within_of_available (h : p.Within d) (ha : 0 < (p.reshape plan now).available) :
    (p.reshape plan now).Within d := by
  unfold Within at h
  by_cases he : p.isExpired now = true
  · simp [Within, reshape, he]
  · simp only [Within, reshape, he, Bool.false_eq_true, ↓reduceIte] at ha ⊢
    omega

theorem within_take (h : p.Within d) :
    (p.take plan n now).1.Within (overdrawn d plan.capacity.toNat (p.out now)) := by
  have hr : (p.reshape plan now).Within (overdrawn d plan.capacity.toNat (p.out now)) :=
    within_reshape h
  unfold take
  dsimp only
  split
  · exact hr
  · split
    · unfold Within at hr ⊢
      simp only [List.sum_cons]
      omega
    · exact hr

theorem take_granted (h : p.Within d) (hn : 0 < n) (hg : (p.take plan n now).2 = .granted) :
    (p.take plan n now).1.capacity = plan.capacity.toNat ∧
      (p.take plan n now).1.outstanding.head? = some n ∧
      (p.take plan n now).1.outstanding.sum ≤ plan.capacity.toNat + d := by
  have hc : (p.reshape plan now).capacity = plan.capacity.toNat := by
    unfold reshape
    dsimp only
    split <;> rfl
  unfold take at hg ⊢
  dsimp only at hg ⊢
  split at hg
  · cases hg
  · rename_i hcap
    rw [if_neg hcap]
    split at hg
    · rename_i ha
      have hw : (p.reshape plan now).Within d := within_of_available h (by omega)
      unfold Within at hw
      rw [if_pos ha]
      refine ⟨hc, rfl, ?_⟩
      simp only [List.sum_cons]
      omega
    · cases hg

theorem within_giveBack (h : p.Within d) : (p.giveBack now).1.Within d := by
  unfold giveBack
  split
  · exact h
  · rename_i permits rest ho
    unfold Within at h ⊢
    rw [ho, List.sum_cons] at h
    dsimp only
    omega

end Pool

namespace Store

variable {s : Store} {t : Ticket} {now n deadline : Nat} {key key' : String} {plan : PoolPlan}
  {d : String → Nat} {p : Pool} {w : Waiting} {a : Attempt}

/-- The pool at which a look for `plan` is made. -/
def poolFor (s : Store) (key : String) (plan : PoolPlan) (now : Nat) : Pool :=
  (s.pools.get? key).getD (.full plan now)

theorem ofPool_poolFor {α : Type} {d : α} {f : Pool → α} (hf : f (.full plan now) = d) :
    f (s.poolFor key plan now) = s.ofPool key d f := by
  unfold poolFor ofPool
  cases s.pools.get? key with
  | none => exact hf
  | some p => rfl

def PoolsWithin (s : Store) (d : String → Nat) : Prop :=
  ∀ key p, s.pools.get? key = some p → p.Within (d key)

theorem PoolsWithin.poolFor (h : s.PoolsWithin d) : (s.poolFor key plan now).Within (d key) := by
  unfold Store.poolFor
  cases hp : s.pools.get? key with
  | none => exact Pool.within_full
  | some p => exact h key p hp

theorem PoolsWithin.congr {s' : Store} {d' : String → Nat} (h : s.PoolsWithin d)
    (hp : s'.pools = s.pools) (hd : ∀ key, d' key = d key) : s'.PoolsWithin d' := by
  intro key p hg
  rw [hp] at hg
  rw [hd]
  exact h key p hg

theorem PoolsWithin.insert (h : s.PoolsWithin d) (hp : p.Within (d key)) :
    PoolsWithin { s with pools := s.pools.insert key p } d := by
  intro key' p' hg
  rw [Table.get?_insert] at hg
  split at hg
  · rename_i hk
    cases hg
    exact hk ▸ hp
  · exact h key' p' hg

/-- A look at a pool changes this pool alone, and its caller may join the line afterwards. -/
theorem tryPermits_pool :
    ∃ p, (p = ((s.poolFor key plan now).take plan n now).1 ∨
        p = ((s.poolFor key plan now).take plan n now).1.join t) ∧
      ∀ key', (s.tryPermits t now key plan n deadline).1.pools.get? key' =
        if key' = key then some p else s.pools.get? key' := by
  obtain ⟨⟨p, l⟩, hr⟩ : ∃ r, (s.poolFor key plan now).take plan n now = r := ⟨_, rfl⟩
  have htake : s.takePermits key plan n now = ({ s with pools := s.pools.insert key p }, l) := by
    unfold takePermits
    unfold poolFor at hr
    simp only [hr]
  unfold tryPermits
  rw [htake, hr]
  cases l with
  | granted => exact ⟨p, .inl rfl, fun key' => Table.get?_insert ..⟩
  | impossible => exact ⟨p, .inl rfl, fun key' => Table.get?_insert ..⟩
  | short =>
    dsimp only
    split
    · exact ⟨p, .inl rfl, fun key' => Table.get?_insert ..⟩
    · refine ⟨p.join t, .inr rfl, fun key' => ?_⟩
      simp only [Table.modify, Table.get?_insert, if_true]
      split <;> rfl

theorem tryPermits_pools :
    ∃ p, ((s.poolFor key plan now).take plan n now).1.Alike p ∧
      ∀ key', (s.tryPermits t now key plan n deadline).1.pools.get? key' =
        if key' = key then some p else s.pools.get? key' := by
  obtain ⟨p, hp, hpools⟩ := @tryPermits_pool s t now n deadline key plan
  refine ⟨p, ?_, hpools⟩
  rcases hp with rfl | rfl
  · exact .refl
  · exact ⟨rfl, rfl, rfl, rfl, rfl⟩

theorem tryPermits_waiting (h : (s.tryPermits t now key plan n deadline).2 = .waiting w) :
    w = .permits key plan n deadline := by
  unfold tryPermits at h
  split at h
  · cases h
  · cases h
  · split at h
    · cases h
    · cases h
      rfl

theorem tryPermits_granted {g : Ticket}
    (h : (s.tryPermits t now key plan n deadline).2 = .done (.ok (some g))) :
    ((s.poolFor key plan now).take plan n now).2 = .granted := by
  unfold tryPermits at h
  split at h
  · rename_i s' hs
    exact congrArg Prod.snd hs
  · cases h
  · split at h <;> cases h

theorem PoolsWithin.tryPermits (h : s.PoolsWithin d) {d' : String → Nat}
    (hd : ∀ key', d' key' = if key' = key then
      Pool.overdrawn (d key) plan.capacity.toNat (s.out key now) else d key') :
    (s.tryPermits t now key plan n deadline).1.PoolsWithin d' := by
  obtain ⟨p, hp, hpools⟩ := @tryPermits_pools s t now n deadline key plan
  intro key' p' hg
  rw [hpools] at hg
  rw [hd]
  by_cases hk : key' = key
  · rw [if_pos hk] at hg ⊢
    cases hg
    have ho : (s.poolFor key plan now).out now = s.out key now :=
      ofPool_poolFor (f := fun p => p.out now) Pool.out_full
    rw [← ho]
    exact hp.within (Pool.within_take h.poolFor)
  · rw [if_neg hk] at hg ⊢
    exact h key' p' hg

/-! ## The pools of other steps -/

theorem check_permits {demand : PoolDemand}
    (h : (Attempt.permits key plan demand).check = .ok ()) : 0 < demand.permits.toNat := by
  by_contra hn
  have hz : demand.permits = 0 := by
    apply UInt32.toNat_inj.1
    simpa using hn
  have hp : Limits.checkPermits demand.permits plan.capacity = .error (.invalid .noPermits) :=
    if_pos hz
  have hc : (Attempt.permits key plan demand).check = (do
      Limits.checkKey key
      Limits.checkWait demand.wait
      Limits.checkPermits demand.permits plan.capacity) := rfl
  rw [hc, hp] at h
  cases hk : Limits.checkKey key with
  | error e => rw [hk] at h; cases h
  | ok u =>
    cases hw : Limits.checkWait demand.wait with
    | error e => rw [hk, hw] at h; cases h
    | ok v => rw [hk, hw] at h; cases h

theorem begin_permits_of_check {demand : PoolDemand}
    (h : (Attempt.permits key plan demand).check = .ok ()) :
    s.begin t now (.permits key plan demand) =
      s.tryPermits t now key plan demand.permits.toNat (now + demand.wait.nanos) := by
  unfold begin
  rw [h]
  rfl

theorem tryToken_pools {bucket : String} {rate : RatePlan} :
    (s.tryToken t now bucket rate deadline).1.pools = s.pools := by
  have hb : (s.takeToken bucket rate now).1.pools = s.pools := rfl
  unfold tryToken
  split
  · rename_i s' hs
    rw [hs] at hb
    exact hb
  · rename_i s' e hs
    rw [hs] at hb
    split <;> exact hb

theorem enterLatch_pools {name : String} {owner : Option Ulid} :
    (s.enterLatch t name owner deadline).1.pools = s.pools := by
  unfold enterLatch
  dsimp only
  split
  · exact pools_grantLatch
  · rfl

/-- An attempt for anything but permits leaves the pools alone. -/
theorem begin_pools (ha : ∀ key plan demand, a ≠ .permits key plan demand) :
    (s.begin t now a).1.pools = s.pools := by
  unfold begin
  split
  · rfl
  · cases a with
    | permits key plan demand => exact absurd rfl (ha key plan demand)
    | token => exact tryToken_pools
    | lock key u wait =>
      simp only [start, tryLatch]
      split
      · split
        · exact pools_grantLatch
        · rfl
      · exact enterLatch_pools
    | named key wait =>
      simp only [start, enterLatch]
      split
      · rename_i s' w hs
        -- Who waits stands in the line of the latch, and leaves it again if the time is over.
        split at hs
        · cases hs
        · cases hs
          split
          · exact pools_leaveLatch
          · rfl
      · exact enterLatch_pools

theorem resume_pools (hw : ∀ key plan n dl, w ≠ .permits key plan n dl) :
    (s.resume t now w).1.pools = s.pools := by
  unfold resume
  cases w with
  | permits key plan n dl => exact absurd rfl (hw key plan n dl)
  | token =>
    dsimp only
    split
    · exact tryToken_pools
    · rfl
  | turn =>
    dsimp only
    split
    · exact pools_grantLatch
    · split
      · exact pools_leaveLatch
      · rfl

theorem resume_permits_waiting
    (h : (s.resume t now (.permits key plan n deadline)).2.2 = .waiting w) :
    w = .permits key plan n deadline := by
  unfold resume at h
  dsimp only at h
  split at h
  · cases h
  · split at h
    · exact tryPermits_waiting h
    · split at h
      · cases h
      · cases h
        rfl

end Store

namespace Traffic

variable {s s' : Traffic} {key : String} {t : Ticket} {a : Attempt} {w : Waiting}
  {log es : List Entry} {m : Move}

/-- The overdraft of a pool after one more entry. -/
def draw (key : String) (d : Nat) : Entry → Nat
  | .asked k capacity out => if key = k then Pool.overdrawn d capacity out else d
  | _ => d

def overdraft (key : String) (log : List Entry) : Nat := log.foldl (draw key) 0

theorem overdraft_eq_zero (h : ∀ capacity out, .asked key capacity out ∈ log → out ≤ capacity) :
    overdraft key log = 0 := by
  induction log using List.reverseRecOn with
  | nil => rfl
  | append_singleton log e ih =>
    have hlog : overdraft key log = 0 := ih fun c o hm => h c o (List.mem_append_left _ hm)
    unfold overdraft at hlog ⊢
    rw [List.foldl_append, hlog]
    cases e with
    | asked k capacity out =>
      show (if key = k then Pool.overdrawn 0 capacity out else 0) = 0
      split
      · rename_i hk
        subst hk
        have hle : out ≤ capacity := h capacity out (by simp)
        unfold Pool.overdrawn
        split
        · rfl
        · omega
      · rfl
    | _ => rfl

/-- The pools after a run, and what those who wait for permits want. -/
structure Pooled (s : Traffic) : Prop where
  pools : s.store.PoolsWithin fun key => overdraft key s.log
  asks : ∀ t key plan demand w, s.waiting.get? t = some (.permits key plan demand, w) →
    0 < demand.permits.toNat ∧ ∃ deadline, w = .permits key plan demand.permits.toNat deadline

theorem overdraft_settle {s₀ : Traffic} {p : Progress} (hlog : s₀.log = log ++ es) :
    overdraft key (s₀.settle t a p).log = es.foldl (draw key) (overdraft key log) := by
  have hq : ((p.answer?.map (Entry.answered t a)).toList).foldl (draw key)
      (es.foldl (draw key) (overdraft key log)) = es.foldl (draw key) (overdraft key log) := by
    cases p <;> rfl
  unfold overdraft at hq ⊢
  rw [settle_log, hlog, List.foldl_append, List.foldl_append, hq]

namespace Pooled

theorem start (client : Ulid) : Pooled (start client) := ⟨nofun, nofun⟩

theorem begin (h : Pooled s) (a : Attempt) : Pooled (s.begin a) := by
  have hlog : ∀ key, overdraft key (s.begin a).log =
      (s.firstAsk a).foldl (draw key) (overdraft key s.log) := by
    intro key
    show _ = (Entry.arrived s.tickets a :: s.firstAsk a).foldl (draw key) (overdraft key s.log)
    exact overdraft_settle rfl
  have hst : (s.begin a).store = (s.store.begin s.tickets s.now a).1 := settle_store ..
  by_cases ha : ∃ key plan demand, a = .permits key plan demand
  · obtain ⟨key, plan, demand, rfl⟩ := ha
    cases hc : (Attempt.permits key plan demand).check with
    | error e =>
      have hask : s.firstAsk (.permits key plan demand) = [] := by simp [firstAsk, hc]
      have hb : s.store.begin s.tickets s.now (.permits key plan demand) =
          (s.store, .done (.error e)) := by simp [Store.begin, hc]
      rw [hask] at hlog
      refine ⟨h.pools.congr (by rw [hst, hb]) hlog, fun t k pl dem w hg => ?_⟩
      rcases settle_get? hg with hg | ⟨-, -, hp⟩
      · exact h.asks t k pl dem w hg
      · rw [hb] at hp
        cases hp
    | ok u =>
      have hask : s.firstAsk (.permits key plan demand) =
          [.asked key plan.capacity.toNat (s.store.out key s.now)] := by simp [firstAsk, hc]
      have hb := @Store.begin_permits_of_check s.store s.tickets s.now key plan demand hc
      constructor
      · rw [hst, hb]
        refine h.pools.tryPermits fun key' => ?_
        rw [hlog, hask]
        by_cases hk : key' = key
        · subst hk
          rfl
        · rw [if_neg hk]
          exact if_neg hk
      · intro t k pl dem w hg
        rcases settle_get? hg with hg | ⟨-, he, hp⟩
        · exact h.asks t k pl dem w hg
        · cases he
          rw [hb] at hp
          exact ⟨Store.check_permits hc, _, Store.tryPermits_waiting hp⟩
  · have hask : s.firstAsk a = [] := by
      cases a with
      | permits key plan demand => exact absurd ⟨key, plan, demand, rfl⟩ ha
      | _ => rfl
    have hp := @Store.begin_pools s.store s.tickets s.now a
      fun key plan demand he => ha ⟨key, plan, demand, he⟩
    rw [hask] at hlog
    refine ⟨h.pools.congr (hst ▸ hp) hlog, fun t k pl dem w hg => ?_⟩
    rcases settle_get? hg with hg | ⟨-, he, -⟩
    · exact h.asks t k pl dem w hg
    · exact absurd ⟨k, pl, dem, he.symm⟩ ha

theorem look_pools (h : Pooled s) {plan : PoolPlan} {n dl : Nat} {d : String → Nat}
    (hd : ∀ key', d key' =
      (s.nextAsk t (.permits key plan n dl)).foldl (draw key') (overdraft key' s.log)) :
    (s.store.resume t s.now (.permits key plan n dl)).1.PoolsWithin d := by
  cases hp : s.store.pools.get? key with
  | none =>
    have hask : s.nextAsk t (.permits key plan n dl) = [] := by simp [nextAsk, hp]
    rw [hask] at hd
    refine h.pools.congr ?_ hd
    simp [Store.resume, hp]
  | some p =>
    have hleave : Store.PoolsWithin { s.store with pools := s.store.pools.insert key (p.leave t) }
        fun key => overdraft key s.log :=
      h.pools.insert (Pool.alike_leave.within (h.pools key p hp))
    by_cases hcall : t ∈ p.called
    · have hask : s.nextAsk t (.permits key plan n dl) =
          [.asked key plan.capacity.toNat (s.store.out key s.now)] := by
        simp [nextAsk, hp, hcall]
      have hr : (s.store.resume t s.now (.permits key plan n dl)).1 =
          (Store.tryPermits { s.store with pools := s.store.pools.insert key (p.leave t) }
            t s.now key plan n dl).1 := by
        simp [Store.resume, hp, hcall]
      have hout : Store.out { s.store with pools := s.store.pools.insert key (p.leave t) } key
          s.now = s.store.out key s.now := by
        unfold Store.out
        rw [Store.ofPool_insert, if_pos rfl, Store.ofPool_of_get? hp]
        rfl
      rw [hr]
      refine hleave.tryPermits fun key' => ?_
      rw [hd, hask, hout]
      by_cases hk : key' = key
      · subst hk
        rfl
      · rw [if_neg hk]
        exact if_neg hk
    · have hask : s.nextAsk t (.permits key plan n dl) = [] := by simp [nextAsk, hp, hcall]
      rw [hask] at hd
      by_cases hdue : (Waiting.permits key plan n dl).isDue s.now = true
      · refine hleave.congr ?_ hd
        simp [Store.resume, hp, hcall, hdue]
      · refine h.pools.congr ?_ hd
        simp [Store.resume, hp, hcall, hdue]

theorem look (h : Pooled s) (hg : s.waiting.get? t = some (a, w)) : Pooled (s.look t a w) := by
  have hlog : ∀ key, overdraft key (s.look t a w).log =
      (s.nextAsk t w).foldl (draw key) (overdraft key s.log) := fun key => overdraft_settle rfl
  have hst : (s.look t a w).store = (s.store.resume t s.now w).1 := settle_store ..
  have hasks : ∀ u k pl dem w', (s.look t a w).waiting.get? u = some (.permits k pl dem, w') →
      0 < dem.permits.toNat ∧ ∃ deadline, w' = .permits k pl dem.permits.toNat deadline := by
    intro u k pl dem w' hu
    rcases settle_get? hu with hu | ⟨-, rfl, hp⟩
    · exact h.asks u k pl dem w' hu
    · obtain ⟨hn, dl, rfl⟩ := h.asks t k pl dem w hg
      exact ⟨hn, dl, Store.resume_permits_waiting hp⟩
  refine ⟨?_, hasks⟩
  rw [hst]
  by_cases hw : ∃ key plan n dl, w = .permits key plan n dl
  · obtain ⟨key, plan, n, dl, rfl⟩ := hw
    exact h.look_pools hlog
  · have hask : s.nextAsk t w = [] := by
      cases w with
      | permits key plan n dl => exact absurd ⟨key, plan, n, dl, rfl⟩ hw
      | _ => rfl
    have hp := @Store.resume_pools s.store t s.now w
      fun key plan n dl he => hw ⟨key, plan, n, dl, he⟩
    rw [hask] at hlog
    exact h.pools.congr hp hlog

/-- A step that asks no pool, and gives permits back at most. -/
theorem of_still (h : Pooled s)
    (hp : ∀ key p, s'.store.pools.get? key = some p →
      ∃ p₀, s.store.pools.get? key = some p₀ ∧ ∀ d, p₀.Within d → p.Within d)
    (hlog : ∀ key, overdraft key s'.log = overdraft key s.log)
    (hw : ∀ t x, s'.waiting.get? t = some x → s.waiting.get? t = some x) : Pooled s' where
  pools key p hg := by
    obtain ⟨p₀, hg₀, hd⟩ := hp key p hg
    show p.Within (overdraft key s'.log)
    rw [hlog]
    exact hd _ (h.pools key p₀ hg₀)
  asks t key plan demand w hg := h.asks t key plan demand w (hw t _ hg)

theorem drop (h : Pooled s) : Pooled (s.drop t w) := by
  refine h.of_still (fun key p hg => ?_) (fun key => ?_) fun u x hu => ?_
  · change (s.store.cancel t w).1.pools.get? key = some p at hg
    cases w with
    | token => exact ⟨p, hg, fun _ hd => hd⟩
    | turn name owner dl =>
      have hl : (s.store.cancel t (.turn name owner dl)).1.pools = s.store.pools :=
        Store.pools_leaveLatch
      rw [hl] at hg
      exact ⟨p, hg, fun _ hd => hd⟩
    | permits k plan n dl =>
      simp only [Store.cancel, Table.modify] at hg
      split at hg
      · rename_i p₀ hp₀
        rw [Table.get?_insert] at hg
        split at hg
        · rename_i hk
          cases hg
          exact ⟨p₀, hk ▸ hp₀, fun d hd => Pool.alike_leave.within hd⟩
        · exact ⟨p, hg, fun _ hd => hd⟩
      · exact ⟨p, hg, fun _ hd => hd⟩
  · simp [Traffic.drop, overdraft, draw]
  · change (s.waiting.erase t).get? u = some x at hu
    rw [Table.get?_erase] at hu
    split at hu
    · cases hu
    · exact hu

theorem of_same (h : Pooled s) (hp : s'.store.pools = s.store.pools)
    (hlog : ∀ key, overdraft key s'.log = overdraft key s.log) (hw : s'.waiting = s.waiting) :
    Pooled s' := by
  refine h.of_still (fun key p hg => ?_) hlog fun t x hu => ?_
  · rw [hp] at hg
    exact ⟨p, hg, fun _ hd => hd⟩
  · rwa [hw] at hu

theorem unlock (h : Pooled s) (u : Ulid) : Pooled (s.unlock key u) := by
  refine h.of_same ?_ (fun key' => ?_) rfl
  · show (s.store.unlock key u).1.pools = _
    unfold Store.unlock
    split
    · split
      · exact Store.pools_leaveLatch
      · rfl
    · rfl
  · simp [Traffic.unlock, overdraft, draw]

theorem free (h : Pooled s) : Pooled (s.free key t) := by
  unfold Traffic.free
  split
  · refine h.of_same Store.pools_leaveLatch (fun key' => ?_) rfl
    simp [overdraft, draw]
  · exact h

theorem giveBack (h : Pooled s) : Pooled (s.giveBack key) := by
  have hpools : ∀ key' p, (s.store.giveBack key s.now).1.pools.get? key' = some p →
      ∃ p₀, s.store.pools.get? key' = some p₀ ∧ ∀ d, p₀.Within d → p.Within d := by
    intro key' p hg
    unfold Store.giveBack at hg
    split at hg
    · rename_i p₀ hp₀
      rw [Table.get?_insert] at hg
      split at hg
      · rename_i hk
        cases hg
        exact ⟨p₀, hk ▸ hp₀, fun _ hd => Pool.within_giveBack hd⟩
      · exact ⟨p, hg, fun _ hd => hd⟩
    · exact ⟨p, hg, fun _ hd => hd⟩
  exact h.of_still hpools (fun _ => rfl) fun _ _ hu => hu

theorem sweep (h : Pooled s) (time : Nat) :
    Pooled { s with store := s.store.sweep time } := by
  refine h.of_still (fun key p hg => ?_) (fun _ => rfl) fun _ _ hu => hu
  unfold Store.sweep at hg
  rw [Table.get?_retain] at hg
  exact ⟨p, (Option.filter_eq_some_iff.1 hg).1, fun _ hd => hd⟩

theorem pass (h : Pooled s) (now : Nat) : Pooled { s with now } :=
  h.of_same rfl (fun _ => rfl) rfl

theorem step (h : Pooled s) (m : Move) : Pooled (s.step m) := by
  cases m with
  | begin a => exact h.begin a
  | look t =>
    unfold Traffic.step
    dsimp only
    split
    · rename_i a w hg
      exact h.look hg
    · exact h
  | drop t =>
    unfold Traffic.step
    dsimp only
    split
    · exact h.drop
    · exact h
  | unlock key u => exact h.unlock u
  | free key t => exact h.free
  | giveBack key => exact h.giveBack
  | sweep time => exact h.sweep time
  | pass millis => exact h.pass _

end Pooled

theorem run_pooled (client : Ulid) (moves : List Move) : Pooled ((Traffic.start client).run moves) :=
  run_induction (.start client) (fun _ m h => h.step m) moves

/-! ## What is granted -/

/-- Whatever the next move grants, the permits that are out of its pool then, the new ones
included, are within the capacity of the call and `extra`. -/
def Rations (s : Traffic) (extra : String → Nat) : Prop :=
  ∀ m es t key plan demand g, (s.step m).log = s.log ++ es →
    .answered t (.permits key plan demand) (.ok (some g)) ∈ es →
    ∃ p, (s.step m).store.pools.get? key = some p ∧ p.capacity = plan.capacity.toNat ∧
      p.outstanding.head? = some demand.permits.toNat ∧
      p.outstanding.sum ≤ p.capacity + extra key

theorem tryPermits_rations {st : Store} {n now dl : Nat} {plan : PoolPlan} {g : Ticket}
    {d : String → Nat} (hn : 0 < n) (hd : st.PoolsWithin d)
    (hg : (st.tryPermits t now key plan n dl).2 = .done (.ok (some g))) :
    ∃ p, (st.tryPermits t now key plan n dl).1.pools.get? key = some p ∧
      p.capacity = plan.capacity.toNat ∧ p.outstanding.head? = some n ∧
      p.outstanding.sum ≤ p.capacity + d key := by
  obtain ⟨p, hp, hpools⟩ := @Store.tryPermits_pools st t now n dl key plan
  obtain ⟨hc, hh, hs⟩ := Pool.take_granted hd.poolFor hn (Store.tryPermits_granted hg)
  refine ⟨p, by rw [hpools, if_pos rfl], hp.capacity.trans hc, hp.outstanding ▸ hh, ?_⟩
  rw [hp.outstanding, hp.capacity, hc]
  exact hs

theorem Pooled.resume_rations (h : Pooled s) {n dl : Nat} {plan : PoolPlan} {g : Ticket} (hn : 0 < n)
    (hg : (s.store.resume t s.now (.permits key plan n dl)).2.2 = .done (.ok (some g))) :
    ∃ p, (s.store.resume t s.now (.permits key plan n dl)).1.pools.get? key = some p ∧
      p.capacity = plan.capacity.toNat ∧ p.outstanding.head? = some n ∧
      p.outstanding.sum ≤ p.capacity + overdraft key s.log := by
  unfold Store.resume at hg ⊢
  dsimp only at hg ⊢
  split at hg
  · cases hg
  · rename_i p hp
    have hleave : Store.PoolsWithin { s.store with pools := s.store.pools.insert key (p.leave t) }
        fun key => overdraft key s.log :=
      h.pools.insert (Pool.alike_leave.within (h.pools key p hp))
    split at hg
    · rename_i hcall
      rw [if_pos hcall]
      exact tryPermits_rations hn hleave hg
    · split at hg <;> cases hg

theorem Pooled.rations (h : Pooled s) : s.Rations fun key => overdraft key s.log := by
  intro m es t key plan demand g hlog he
  have hnote : s.note m = some (.answered t (.permits key plan demand) (.ok (some g))) :=
    note_of_mem hlog he id
  cases m with
  | begin a =>
    obtain ⟨o, ho, heq⟩ := Option.map_eq_some_iff.1 hnote
    cases heq
    have hst : (s.step (.begin (.permits key plan demand))).store =
        (s.store.begin s.tickets s.now (.permits key plan demand)).1 := settle_store ..
    rw [hst]
    cases hc : (Attempt.permits key plan demand).check with
    | error e =>
      simp [Store.begin, hc, Progress.answer?] at ho
    | ok u =>
      rw [Store.begin_permits_of_check hc] at ho ⊢
      exact tryPermits_rations (Store.check_permits hc) h.pools (Progress.answer?_eq_some.1 ho)
  | look t' =>
    unfold note at hnote
    dsimp only at hnote
    split at hnote
    · rename_i a w hw
      obtain ⟨o, ho, heq⟩ := Option.map_eq_some_iff.1 hnote
      cases heq
      obtain ⟨hn, dl, rfl⟩ := h.asks t key plan demand w hw
      have hst : (s.step (.look t)).store =
          (s.store.resume t s.now (.permits key plan demand.permits.toNat dl)).1 := by
        simp only [Traffic.step, hw]
        exact settle_store ..
      rw [hst]
      exact h.resume_rations hn (Progress.answer?_eq_some.1 ho)
    · cases hnote
  | drop t' =>
    obtain ⟨x, -, heq⟩ := Option.map_eq_some_iff.1 hnote
    cases heq
  | unlock => cases hnote
  | free key' t' =>
    unfold note at hnote
    dsimp only at hnote
    split at hnote <;> cases hnote
  | giveBack => cases hnote
  | sweep => cases hnote
  | pass => cases hnote

structure Rationed (s : Traffic) : Prop where
  within : s.Rations fun key => overdraft key s.log
  /-- Nothing is overdrawn while nobody named a capacity below what was out. -/
  covered : ∀ key, (∀ capacity out, .asked key capacity out ∈ s.log → out ≤ capacity) →
    overdraft key s.log = 0

theorem run_rationed (client : Ulid) (moves : List Move) :
    Rationed ((Traffic.start client).run moves) :=
  ⟨(run_pooled client moves).rations, fun _ h => overdraft_eq_zero h⟩

/-- All of a pool of four is taken, and then a pool of two is asked for one, in vain. -/
def shrinking : List Move :=
  [.begin (.permits "k" ⟨4, .ofSecs 60⟩ ⟨4, .zero⟩), .begin (.permits "k" ⟨2, .ofSecs 60⟩ ⟨1, .zero⟩)]

/-- The next call, again for a pool of four, gets two more. -/
theorem shrinking_overdraws : ¬ ((Traffic.start ⟨0⟩).run shrinking).Rations fun _ => 0 := by
  intro h
  let more : Attempt := .permits "k" ⟨4, .ofSecs 60⟩ ⟨2, .zero⟩
  have hout : ((((Traffic.start ⟨0⟩).run shrinking).step (.begin more)).store.pools.get? "k").map
      (fun p => (p.capacity, p.outstanding)) = some (4, [2, 4]) := by decide
  have hlog : (((Traffic.start ⟨0⟩).run shrinking).step (.begin more)).log =
      ((Traffic.start ⟨0⟩).run shrinking).log ++
        [.arrived 2 more, .asked "k" 4 4, .answered 2 more (.ok (some 2))] := rfl
  obtain ⟨p, hp, -, -, hs⟩ := h (.begin more) _ 2 "k" ⟨4, .ofSecs 60⟩ ⟨2, .zero⟩ 2 hlog
    (by simp [more])
  rw [hp] at hout
  obtain ⟨hc, ho⟩ := Prod.mk.inj (Option.some.inj hout)
  rw [hc, ho] at hs
  simp at hs

end Traffic

end Turnstile.Local
