import Turnstile.Proofs.Local.Callers

/-!
# Stores that were swept on the way

`Pruned now s s'` says that `s'` is the store `s` without entries that make no difference at `now`:
buckets that have expired, pools that nobody waits at and that have expired or are full, latches
that are idle. Both answer alike, wake the same callers and stay related, and a sweep of `s'` keeps
them so.

That needs callers of one kind (`Orderly`). A bucket that has expired is filled up to the capacity
of its old plan, so that all callers must name one plan. An expired pool is given back to as if it
had not expired and is full afterwards, where nothing is there in `s'`; it is full because all
callers ask for the whole pool, so that no two acquisitions are out (`Pool.Single`).
-/

namespace Turnstile.Local

theorem since_mono {now now' t : Nat} (h : now ≤ now') : Clock.since now t ≤ Clock.since now' t := by
  show (Clock.since now t).nanos ≤ (Clock.since now' t).nanos
  simp only [Clock.since, Duration.ofNanos]
  omega

theorem since_self {now : Nat} : (Clock.since now now).nanos = 0 := by
  simp only [Clock.since, Duration.ofNanos]
  omega

namespace Bucket

variable {ν : Type} [Quantity ν] {b : Bucket ν} {plan : RatePlan} {now now' : Nat}

omit [Quantity ν] in
theorem isExpired_mono (hle : now ≤ now') (h : b.isExpired now = true) : b.isExpired now' = true :=
  decide_eq_true (Nat.lt_of_lt_of_le (of_decide_eq_true h) (since_mono hle))

theorem isExpired_full : (full plan now : Bucket ν).isExpired now = false := by
  refine decide_eq_false fun h => ?_
  have hlt : plan.lifetime.nanos < (Clock.since now now).nanos := h
  rw [since_self] at hlt
  exact Nat.not_lt_zero _ hlt

/-- An expired bucket answers as a new one, if the plan is still the same. -/
theorem take_of_expired (h : b.isExpired now = true) (hp : b.plan = plan) :
    b.take plan now = (full plan now).take plan now := by
  subst hp
  have hb : b.renew b.plan now = { b with tokens := Quantity.count b.plan.permits, lastRefill := now } :=
    if_pos h
  have hf : (full b.plan now : Bucket ν).renew b.plan now = full b.plan now := by
    unfold renew
    rw [isExpired_full]
    rfl
  unfold take
  rw [hb, hf]
  rfl

end Bucket

namespace Pool

variable {p p' : Pool} {plan : PoolPlan} {n now now' : Nat} {t : Ticket}

theorem isExpired_mono (hle : now ≤ now') (h : p.isExpired now = true) : p.isExpired now' = true :=
  decide_eq_true (Nat.lt_of_lt_of_le (of_decide_eq_true h) (since_mono hle))

/-- A pool that makes no difference any more. -/
structure IsSpent (p : Pool) (now : Nat) : Prop where
  callers : p.callers = []
  idle : p.isExpired now = true ∨ p.IsFull

theorem reshape_full : (full plan now).reshape plan now = full plan now := by
  unfold reshape full
  dsimp only
  split
  · rfl
  · simp

/-- The first look at a pool that is spent finds a new one. -/
theorem IsSpent.reshape (h : p.IsSpent now) : p.reshape plan now = full plan now := by
  obtain ⟨hcalled, hline⟩ := List.append_eq_nil_iff.1 h.callers
  unfold Pool.reshape full
  dsimp only
  by_cases he : p.isExpired now = true
  · rw [if_pos he, hcalled, hline]
  · obtain ⟨hout, havail⟩ := h.idle.resolve_left he
    rw [if_neg he, hcalled, hline, hout, havail, Nat.add_sub_cancel_left, Nat.min_self]

theorem IsSpent.take (h : p.IsSpent now) : p.take plan n now = (full plan now).take plan n now := by
  unfold Pool.take
  rw [h.reshape, reshape_full]

/-- All permits are there, or one acquisition is out and keeps every other one out. -/
def Single (p : Pool) : Prop :=
  p.IsFull ∨ ∃ n, p.outstanding = [n] ∧ p.available < p.capacity ∧ p.capacity ≤ p.available + n

theorem Alike.single (h : Alike p p') (hp : p.Single) : p'.Single := by
  unfold Single IsFull at *
  rwa [h.capacity, h.available, h.outstanding]

theorem single_full : (full plan now).Single := .inl ⟨rfl, rfl⟩

theorem single_reshape (h : p.Single) (hn : 0 < plan.capacity.toNat) :
    (p.reshape plan now).Single := by
  unfold reshape
  dsimp only
  split
  · exact .inl ⟨rfl, rfl⟩
  · rcases h with ⟨hout, havail⟩ | ⟨n, hout, hlt, hle⟩
    · refine .inl ⟨hout, ?_⟩
      dsimp only
      omega
    · refine .inr ⟨n, hout, ?_, ?_⟩
      · dsimp only
        omega
      · dsimp only
        omega

theorem single_take (h : p.Single) (hn : 0 < plan.capacity.toNat) :
    (p.take plan plan.capacity.toNat now).1.Single := by
  have hr : (p.reshape plan now).Single := single_reshape h hn
  by_cases hg : (p.take plan plan.capacity.toNat now).2 = .granted
  · obtain ⟨havail, hcap, hleft, hout⟩ := take_of_granted hg
    have hc : (p.reshape plan now).capacity = plan.capacity.toNat := reshape_capacity
    -- Nothing is out, or else not everything would be available.
    have hfull : (p.reshape plan now).IsFull := by
      refine hr.resolve_right ?_
      rintro ⟨n, -, hlt, -⟩
      omega
    refine .inr ⟨plan.capacity.toNat, ?_, ?_, ?_⟩
    · rw [hout, hfull.1]
    · rw [hleft, hcap, hfull.2, hc]
      omega
    · rw [hcap, hc]
      omega
  · rw [take_of_ne_granted hg]
    exact hr

theorem single_giveBack (h : p.Single) : (p.giveBack now).1.IsFull := by
  rcases h with h | ⟨n, hout, hlt, hle⟩
  · rw [giveBack_nil h.1]
    exact h
  · obtain ⟨hcap, havail, hrest⟩ := @giveBack_cons p n now [] hout
    refine ⟨hrest, ?_⟩
    rw [havail, hcap]
    omega

theorem giveBack_woken : (p.giveBack now).2 = if p.outstanding = [] then [] else p.line := by
  unfold giveBack
  split
  · rename_i h
    rw [if_pos h]
  · rename_i h
    rw [if_neg (by rw [h]; exact List.cons_ne_nil _ _)]

theorem IsSpent.giveBack (h : p.IsSpent now) (hf : (p.giveBack now).1.IsFull) :
    (p.giveBack now).2 = [] ∧ (p.giveBack now).1.IsSpent now := by
  have hline : p.line = [] := (List.append_eq_nil_iff.1 h.callers).2
  refine ⟨?_, callers_giveBack.trans h.callers, .inr hf⟩
  rw [giveBack_woken, hline, ite_self]

end Pool

/-- The attempt names the plan `rate` and asks for a whole pool. -/
def Attempt.IsWhole (rate : RatePlan) : Attempt → Prop
  | token _ _ plan => plan = rate
  | permits _ plan demand => demand.permits = plan.capacity
  | lock _ _ _ => True
  | named _ _ => True

def Waiting.IsWhole (rate : RatePlan) : Waiting → Prop
  | token _ plan _ _ => plan = rate
  | permits _ plan n _ => n = plan.capacity.toNat ∧ 0 < n
  | turn _ _ _ => True

namespace Store

variable {s s' r r' : Store} {t : Ticket} {now now' n deadline : Nat} {name key : String}
  {owner : Option Ulid} {u : Ulid} {a : Attempt} {w w' : Waiting} {plan : PoolPlan}
  {rate : RatePlan} {p : Pool} {b : Bucket Float}

/-- All that attempts of one kind leave behind. -/
structure Orderly (rate : RatePlan) (s : Store) : Prop where
  buckets : ∀ name b, s.buckets.get? name = some b → b.plan = rate
  pools : ∀ key p, s.pools.get? key = some p → p.Single

/-- `s'` is `s` without some of the entries that make no difference. -/
structure Pruned (now : Nat) (s s' : Store) : Prop where
  buckets : ∀ name, s'.buckets.get? name = s.buckets.get? name ∨
    s'.buckets.get? name = none ∧ ∀ b, s.buckets.get? name = some b → b.isExpired now = true
  pools : ∀ key, s'.pools.get? key = s.pools.get? key ∨
    s'.pools.get? key = none ∧ ∀ p, s.pools.get? key = some p → p.IsSpent now
  latch : s'.latch = s.latch
  holders : s'.holders = s.holders
  client : s'.client = s.client

/-- What latches have nothing to do with. -/
structure SameStock (s r : Store) : Prop where
  buckets : r.buckets = s.buckets
  pools : r.pools = s.pools
  client : r.client = s.client

theorem SameStock.refl : SameStock s s := ⟨rfl, rfl, rfl⟩

theorem SameStock.trans (h : SameStock s r) (h' : SameStock r r') : SameStock s r' :=
  ⟨h'.buckets.trans h.buckets, h'.pools.trans h.pools, h'.client.trans h.client⟩

theorem grantLatch_sameStock : SameStock s (s.grantLatch t name owner) := by
  cases owner <;> exact ⟨rfl, rfl, rfl⟩

theorem leaveLatch_sameStock : SameStock s (s.leaveLatch name t).1 := by
  unfold leaveLatch
  split <;> exact ⟨rfl, rfl, rfl⟩

theorem enterLatch_sameStock : SameStock s (s.enterLatch t name owner deadline).1 := by
  unfold enterLatch
  dsimp only
  split
  · have hset : SameStock s (s.setLatch name ((s.latch name).enter t)) := ⟨rfl, rfl, rfl⟩
    exact hset.trans grantLatch_sameStock
  · exact ⟨rfl, rfl, rfl⟩

theorem tryLatch_sameStock : SameStock s (s.tryLatch t name u).1 := by
  unfold tryLatch
  split <;> exact ⟨rfl, rfl, rfl⟩

theorem unlock_sameStock : SameStock s (s.unlock key u).1 := by
  by_cases h : ∃ t, s.holders.get? key = some (u, t)
  · obtain ⟨t, ht⟩ := h
    have herase : SameStock s { s with holders := s.holders.erase key } := ⟨rfl, rfl, rfl⟩
    rw [unlock_of_mem ht]
    exact herase.trans leaveLatch_sameStock
  · rw [unlock_of_not_mem fun t ht => h ⟨t, ht⟩]
    exact .refl

/-- Who waits for a latch stands in its line. -/
theorem enterLatch_waiting (h : (s.enterLatch t name owner deadline).2 = .waiting w) :
    w = .turn name owner deadline := by
  unfold enterLatch at h
  dsimp only at h
  split at h
  · cases h
  · cases h
    rfl

theorem Orderly.sameStock (h : Orderly rate s) (hs : SameStock s r) : Orderly rate r :=
  ⟨fun name b hb => h.buckets name b (hs.buckets ▸ hb), fun key p hp => h.pools key p (hs.pools ▸ hp)⟩

/-! ## Attempts of one kind -/

theorem Orderly.insertPool (h : Orderly rate s) (hp : p.Single) :
    Orderly rate { s with pools := s.pools.insert key p } := by
  refine ⟨h.buckets, fun key' p' hp' => ?_⟩
  rw [Table.get?_insert] at hp'
  split at hp'
  · cases hp'
    exact hp
  · exact h.pools key' p' hp'

theorem Orderly.poolFor (h : Orderly rate s) : (s.poolFor key plan now).Single := by
  unfold Store.poolFor
  cases hp : s.pools.get? key with
  | none => exact Pool.single_full
  | some p => exact h.pools key p hp

theorem Orderly.tryToken (h : Orderly rate s) :
    Orderly rate (s.tryToken t now name rate deadline).1 := by
  have htake : Orderly rate (s.takeToken name rate now).1 := by
    refine ⟨fun name' b hb => ?_, h.pools⟩
    unfold takeToken at hb
    dsimp only at hb
    rw [Table.get?_insert] at hb
    split at hb
    · cases hb
      exact (Bucket.take_plan ..).1
    · exact h.buckets name' b hb
  unfold Store.tryToken
  split
  · rename_i hs
    rwa [hs] at htake
  · rename_i hs
    rw [hs] at htake
    split <;> exact htake

theorem Orderly.tryPermits (h : Orderly rate s) (hn : 0 < plan.capacity.toNat) :
    Orderly rate (s.tryPermits t now key plan plan.capacity.toNat deadline).1 := by
  obtain ⟨p, hp, hpools⟩ := @tryPermits_pools s t now plan.capacity.toNat deadline key plan
  have hbuckets : (s.tryPermits t now key plan plan.capacity.toNat deadline).1.buckets =
      s.buckets := by
    have htake : (s.takePermits key plan plan.capacity.toNat now).1.buckets = s.buckets := rfl
    unfold Store.tryPermits
    split
    · rename_i hs
      rwa [hs] at htake
    · rename_i hs
      rwa [hs] at htake
    · rename_i hs
      rw [hs] at htake
      split <;> exact htake
  refine ⟨hbuckets ▸ h.buckets, fun key' p' hp' => ?_⟩
  rw [hpools] at hp'
  split at hp'
  · cases hp'
    exact hp.single (Pool.single_take h.poolFor hn)
  · exact h.pools key' p' hp'

/-- What was checked asks for something. -/
theorem start_eq_of_whole {demand : PoolDemand} (ha : demand.permits = plan.capacity)
    (hc : (Attempt.permits key plan demand).check = .ok ()) :
    0 < plan.capacity.toNat ∧ s.start t now (.permits key plan demand) =
      s.tryPermits t now key plan plan.capacity.toNat (now + demand.wait.nanos) := by
  have hpos := check_permits hc
  rw [ha] at hpos
  refine ⟨hpos, ?_⟩
  simp only [start, ha]

theorem Orderly.begin (h : Orderly rate s) (ha : a.IsWhole rate) :
    Orderly rate (s.begin t now a).1 := by
  unfold Store.begin
  split
  · exact h
  · rename_i hc
    cases a with
    | token key wait plan =>
      cases ha
      exact h.tryToken
    | permits key plan demand =>
      obtain ⟨hpos, hstart⟩ := @start_eq_of_whole s t now key plan demand ha hc
      rw [hstart]
      exact h.tryPermits hpos
    | lock key u wait =>
      simp only [start]
      split
      · exact h.sameStock tryLatch_sameStock
      · exact h.sameStock enterLatch_sameStock
    | named key wait =>
      have henter : Orderly rate (s.enterLatch t (lockName key) none (now + wait.nanos)).1 :=
        h.sameStock enterLatch_sameStock
      simp only [start]
      split
      · rename_i s' w hs
        have hw := enterLatch_waiting (congrArg Prod.snd hs)
        subst hw
        rw [hs] at henter
        split
        · exact henter.sameStock leaveLatch_sameStock
        · exact henter
      · exact henter

theorem Orderly.resume (h : Orderly rate s) (hw : w.IsWhole rate) :
    Orderly rate (s.resume t now w).1 := by
  cases w with
  | token bucket plan deadline wake =>
    cases hw
    simp only [Store.resume]
    split
    · exact h.tryToken
    · exact h
  | turn name owner deadline =>
    simp only [Store.resume]
    split
    · exact h.sameStock grantLatch_sameStock
    · split
      · exact h.sameStock leaveLatch_sameStock
      · exact h
  | permits key plan n deadline =>
    obtain ⟨rfl, hpos⟩ := hw
    simp only [Store.resume]
    split
    · exact h
    · rename_i p hp
      have hleave : Orderly rate { s with pools := s.pools.insert key (p.leave t) } :=
        h.insertPool (Pool.alike_leave.single (h.pools key p hp))
      split
      · exact hleave.tryPermits hpos
      · split
        · exact hleave
        · exact h

theorem Orderly.cancel (h : Orderly rate s) : Orderly rate (s.cancel t w).1 := by
  cases w with
  | token => exact h
  | turn => exact h.sameStock leaveLatch_sameStock
  | permits key plan n deadline =>
    simp only [Store.cancel, Table.modify]
    split
    · rename_i p hp
      exact h.insertPool (Pool.alike_leave.single (h.pools key p hp))
    · exact h

theorem Orderly.giveBack (h : Orderly rate s) : Orderly rate (s.giveBack key now).1 := by
  unfold Store.giveBack
  split
  · rename_i p hp
    exact h.insertPool (.inl (Pool.single_giveBack (h.pools key p hp)))
  · exact h

theorem tryToken_isWhole (h : (s.tryToken t now name rate deadline).2 = .waiting w) :
    w.IsWhole rate := by
  unfold tryToken at h
  split at h
  · cases h
  · split at h
    · cases h
      rfl
    · cases h

theorem begin_isWhole (ha : a.IsWhole rate) (h : (s.begin t now a).2 = .waiting w) :
    w.IsWhole rate := by
  unfold begin at h
  split at h
  · cases h
  · rename_i hc
    cases a with
    | token key wait plan =>
      cases ha
      exact tryToken_isWhole h
    | permits key plan demand =>
      obtain ⟨hpos, hstart⟩ := @start_eq_of_whole s t now key plan demand ha hc
      rw [hstart] at h
      rw [tryPermits_waiting h]
      exact ⟨rfl, hpos⟩
    | lock key u wait =>
      have hturn := start_isOf h
      cases w with
      | turn => trivial
      | token =>
        simp only [start, tryLatch] at h
        split at h
        · split at h <;> cases h
        · cases enterLatch_waiting h
      | permits =>
        obtain ⟨demand, he, -⟩ := hturn
        cases he
    | named key wait =>
      simp only [start] at h
      split at h
      · rename_i s' w' hs
        have hw := enterLatch_waiting (congrArg Prod.snd hs)
        split at h
        · cases h
        · cases h
          subst hw
          trivial
      · cases enterLatch_waiting h
        trivial

theorem resume_isWhole (hw : w.IsWhole rate) (h : (s.resume t now w).2.2 = .waiting w') :
    w'.IsWhole rate := by
  cases w with
  | token bucket plan deadline wake =>
    cases hw
    simp only [resume] at h
    split at h
    · exact tryToken_isWhole h
    · cases h
      rfl
  | turn =>
    simp only [resume] at h
    split at h
    · cases h
    · split at h
      · cases h
      · cases h
        trivial
  | permits =>
    rw [resume_permits_waiting h]
    exact hw

/-! ## A store and a pruned one -/

namespace Pruned

theorem refl : Pruned now s s := ⟨fun _ => .inl rfl, fun _ => .inl rfl, rfl, rfl, rfl⟩

theorem later (h : Pruned now s s') (hle : now ≤ now') : Pruned now' s s' where
  buckets name := (h.buckets name).imp_right fun ⟨hn, he⟩ =>
    ⟨hn, fun b hb => Bucket.isExpired_mono hle (he b hb)⟩
  pools key := (h.pools key).imp_right fun ⟨hn, he⟩ =>
    ⟨hn, fun p hp => ⟨(he p hp).callers, (he p hp).idle.imp_left (Pool.isExpired_mono hle)⟩⟩
  latch := h.latch
  holders := h.holders
  client := h.client

/-- A sweep removes what makes no difference. -/
theorem sweep (h : Pruned now s s') : Pruned now s (s'.sweep now) where
  buckets name := by
    have hget : (s'.sweep now).buckets.get? name =
        (s'.buckets.get? name).filter fun b => !b.isExpired now := Table.get?_retain ..
    rw [hget]
    rcases h.buckets name with he | ⟨hn, he⟩
    · rw [he]
      cases hb : s.buckets.get? name with
      | none => exact .inl rfl
      | some b =>
        cases hx : b.isExpired now with
        | false => exact .inl (by simp [Option.filter, hx])
        | true =>
          refine .inr ⟨by simp [Option.filter, hx], fun b' hb' => ?_⟩
          cases hb'
          exact hx
    · rw [hn]
      exact .inr ⟨rfl, he⟩
  pools key := by
    have hget : (s'.sweep now).pools.get? key =
        (s'.pools.get? key).filter fun p => p.isAwaited || !p.isExpired now := Table.get?_retain ..
    rw [hget]
    rcases h.pools key with he | ⟨hn, he⟩
    · rw [he]
      cases hp : s.pools.get? key with
      | none => exact .inl rfl
      | some p =>
        by_cases hkeep : (p.isAwaited || !p.isExpired now) = true
        · exact .inl (by simp [Option.filter, hkeep])
        · refine .inr ⟨by simp [Option.filter, hkeep], fun p' hp' => ?_⟩
          cases hp'
          simp only [Bool.or_eq_true, not_or, Bool.not_eq_true'] at hkeep
          refine ⟨?_, .inl (by simpa using hkeep.2)⟩
          by_contra hne
          exact hkeep.1 (Pool.isAwaited_iff.2 hne)
    · rw [hn]
      exact .inr ⟨rfl, he⟩
  latch := latch_sweep.trans h.latch
  holders := h.holders
  client := h.client

/-- Latches change alike, and nothing else does. -/
theorem level (h : Pruned now s s') (hs : SameStock s r) (hs' : SameStock s' r')
    (hl : r'.latch = r.latch) (hh : r'.holders = r.holders) : Pruned now r r' where
  buckets name := by
    rw [hs.buckets, hs'.buckets]
    exact h.buckets name
  pools key := by
    rw [hs.pools, hs'.pools]
    exact h.pools key
  latch := hl
  holders := hh
  client := by rw [hs.client, hs'.client, h.client]

theorem insertPool (h : Pruned now s s') :
    Pruned now { s with pools := s.pools.insert key p } { s' with pools := s'.pools.insert key p } where
  buckets := h.buckets
  pools key' := by
    rw [Table.get?_insert, Table.get?_insert]
    split
    · exact .inl rfl
    · exact h.pools key'
  latch := h.latch
  holders := h.holders
  client := h.client

/-- A pool that is not there in `s'` may become a spent one in `s`. -/
theorem spend (h : Pruned now s s') (hn : s'.pools.get? key = none) (hp : p.IsSpent now) :
    Pruned now { s with pools := s.pools.insert key p } s' where
  buckets := h.buckets
  pools key' := by
    rw [Table.get?_insert]
    split
    · rename_i hk
      refine .inr ⟨hk ▸ hn, fun p' hp' => ?_⟩
      cases hp'
      exact hp
    · exact h.pools key'
  latch := h.latch
  holders := h.holders
  client := h.client

theorem insertBucket (h : Pruned now s s') :
    Pruned now { s with buckets := s.buckets.insert name b }
      { s' with buckets := s'.buckets.insert name b } where
  buckets name' := by
    rw [Table.get?_insert, Table.get?_insert]
    split
    · exact .inl rfl
    · exact h.buckets name'
  pools := h.pools
  latch := h.latch
  holders := h.holders
  client := h.client

/-- A pool that somebody waits at is in both. -/
theorem get?_of_mem (h : Pruned now s s') (ht : t ∈ s.callers key) :
    ∃ p, s.pools.get? key = some p ∧ s'.pools.get? key = some p := by
  obtain ⟨p, hp, ht⟩ := exists_of_mem_ofPool ht
  rcases h.pools key with he | ⟨-, he⟩
  · exact ⟨p, hp, he.trans hp⟩
  · rw [(he p hp).callers] at ht
    cases ht

/-! ### Buckets -/

theorem takeToken (h : Pruned now s s') (ho : Orderly rate s) :
    Pruned now (s.takeToken name rate now).1 (s'.takeToken name rate now).1 ∧
      (s'.takeToken name rate now).2 = (s.takeToken name rate now).2 := by
  have htake : ((s'.buckets.get? name).getD (.full rate now)).take rate now =
      ((s.buckets.get? name).getD (.full rate now)).take rate now := by
    rcases h.buckets name with he | ⟨hn, he⟩
    · rw [he]
    · rw [hn]
      cases hb : s.buckets.get? name with
      | none => rfl
      | some b => exact (Bucket.take_of_expired (he b hb) (ho.buckets name b hb)).symm
  unfold Store.takeToken
  dsimp only
  rw [htake]
  exact ⟨h.insertBucket, rfl⟩

theorem tryToken (h : Pruned now s s') (ho : Orderly rate s) :
    Pruned now (s.tryToken t now name rate deadline).1 (s'.tryToken t now name rate deadline).1 ∧
      (s'.tryToken t now name rate deadline).2 = (s.tryToken t now name rate deadline).2 := by
  obtain ⟨hp, ha⟩ := @takeToken _ _ _ name _ h ho
  unfold Store.tryToken
  generalize s.takeToken name rate now = x at hp ha
  generalize s'.takeToken name rate now = x' at hp ha
  obtain ⟨r, l⟩ := x
  obtain ⟨r', l'⟩ := x'
  cases ha
  cases l with
  | taken => exact ⟨hp, rfl⟩
  | wait d =>
    dsimp only
    cases wakeFor? now deadline d with
    | none => exact ⟨hp, rfl⟩
    | some wake => exact ⟨hp, rfl⟩

/-! ### Pools -/

theorem tryPermits (h : Pruned now s s') :
    Pruned now (s.tryPermits t now key plan n deadline).1
        (s'.tryPermits t now key plan n deadline).1 ∧
      (s'.tryPermits t now key plan n deadline).2 = (s.tryPermits t now key plan n deadline).2 := by
  have htake : ((s'.pools.get? key).getD (.full plan now)).take plan n now =
      ((s.pools.get? key).getD (.full plan now)).take plan n now := by
    rcases h.pools key with he | ⟨hn, he⟩
    · rw [he]
    · rw [hn]
      cases hp : s.pools.get? key with
      | none => rfl
      | some p => exact (he p hp).take.symm
  unfold Store.tryPermits Store.takePermits
  dsimp only
  rw [htake]
  generalize ((s.pools.get? key).getD (.full plan now)).take plan n now = x
  obtain ⟨p, l⟩ := x
  have hp : Pruned now { s with pools := s.pools.insert key p }
      { s' with pools := s'.pools.insert key p } := h.insertPool
  cases l with
  | granted => exact ⟨hp, rfl⟩
  | impossible => exact ⟨hp, rfl⟩
  | short =>
    dsimp only
    split
    · exact ⟨hp, rfl⟩
    · have hget : ∀ r : Store, (r.pools.insert key p).modify key (·.join t) =
          (r.pools.insert key p).insert key (p.join t) := by
        intro r
        simp [Table.modify, Table.get?_insert]
      rw [hget, hget]
      exact ⟨hp.insertPool, rfl⟩

/-- What comes back to a pool that is spent leaves it full. -/
theorem giveBack_of_isFull (h : Pruned now s s')
    (hf : ∀ p, s.pools.get? key = some p → p.IsSpent now → (p.giveBack now).1.IsFull) :
    Pruned now (s.giveBack key now).1 (s'.giveBack key now).1 ∧
      (s'.giveBack key now).2 = (s.giveBack key now).2 := by
  unfold Store.giveBack
  rcases h.pools key with he | ⟨hn, he⟩
  · rw [he]
    cases s.pools.get? key with
    | none => exact ⟨h, rfl⟩
    | some p => exact ⟨h.insertPool, rfl⟩
  · rw [hn]
    cases hp : s.pools.get? key with
    | none => exact ⟨h, rfl⟩
    | some p =>
      obtain ⟨hw, hspent⟩ := (he p hp).giveBack (hf p hp (he p hp))
      exact ⟨h.spend hn hspent, hw.symm⟩

theorem giveBack (h : Pruned now s s') (ho : Orderly rate s) :
    Pruned now (s.giveBack key now).1 (s'.giveBack key now).1 ∧
      (s'.giveBack key now).2 = (s.giveBack key now).2 :=
  h.giveBack_of_isFull fun p hp _ => Pool.single_giveBack (ho.pools key p hp)

/-- The next look of a call that waits at a pool. -/
theorem resumePermits (h : Pruned now s s') (ht : t ∈ s.callers key) :
    Pruned now (s.resume t now (.permits key plan n deadline)).1
        (s'.resume t now (.permits key plan n deadline)).1 ∧
      (s'.resume t now (.permits key plan n deadline)).2 =
        (s.resume t now (.permits key plan n deadline)).2 := by
  obtain ⟨p, hp, hp'⟩ := h.get?_of_mem ht
  have hleave : Pruned now { s with pools := s.pools.insert key (p.leave t) }
      { s' with pools := s'.pools.insert key (p.leave t) } := h.insertPool
  simp only [Store.resume, hp, hp']
  split
  · obtain ⟨hpr, hsame⟩ := @tryPermits _ _ t _ n deadline key plan hleave
    exact ⟨hpr, by rw [hsame]⟩
  · split
    · exact ⟨hleave, rfl⟩
    · exact ⟨h, rfl⟩

/-! ### Latches -/

theorem grantLatch (h : Pruned now s s') :
    Pruned now (s.grantLatch t name owner) (s'.grantLatch t name owner) := by
  refine h.level grantLatch_sameStock grantLatch_sameStock ?_ ?_
  · funext name'
    rw [latch_grantLatch, latch_grantLatch, h.latch]
  · cases owner with
    | none => exact h.holders
    | some u =>
      show s'.holders.insert name (u, t) = s.holders.insert name (u, t)
      rw [h.holders]

theorem leaveLatch (h : Pruned now s s') :
    Pruned now (s.leaveLatch name t).1 (s'.leaveLatch name t).1 ∧
      (s'.leaveLatch name t).2 = (s.leaveLatch name t).2 := by
  refine ⟨h.level leaveLatch_sameStock leaveLatch_sameStock ?_ ?_, ?_⟩
  · rw [latch_leaveLatch_eq, latch_leaveLatch_eq, h.latch]
  · rw [holders_leaveLatch, holders_leaveLatch, h.holders]
  · rw [woken_leaveLatch, woken_leaveLatch, h.latch]

theorem setLatch (h : Pruned now s s') (l : Latch) :
    Pruned now (s.setLatch name l) (s'.setLatch name l) := by
  refine h.level ⟨rfl, rfl, rfl⟩ ⟨rfl, rfl, rfl⟩ ?_ h.holders
  rw [latch_setLatch_eq, latch_setLatch_eq, h.latch]

theorem enterLatch (h : Pruned now s s') :
    Pruned now (s.enterLatch t name owner deadline).1 (s'.enterLatch t name owner deadline).1 ∧
      (s'.enterLatch t name owner deadline).2 = (s.enterLatch t name owner deadline).2 := by
  have hset : Pruned now (s.setLatch name ((s.latch name).enter t))
      (s'.setLatch name ((s.latch name).enter t)) := h.setLatch _
  unfold Store.enterLatch
  rw [h.latch]
  dsimp only
  split
  · exact ⟨hset.grantLatch, rfl⟩
  · exact ⟨hset, rfl⟩

theorem tryLatch (h : Pruned now s s') :
    Pruned now (s.tryLatch t name u).1 (s'.tryLatch t name u).1 ∧
      (s'.tryLatch t name u).2 = (s.tryLatch t name u).2 := by
  have hset : Pruned now (s.setLatch name (.held t [])) (s'.setLatch name (.held t [])) :=
    h.setLatch _
  unfold Store.tryLatch
  rw [h.latch]
  split
  · exact ⟨@grantLatch _ _ t _ name (some u) hset, rfl⟩
  · exact ⟨h, rfl⟩

theorem isHeldBy (h : Pruned now s s') : s'.isHeldBy key u = s.isHeldBy key u := by
  unfold Store.isHeldBy
  rw [h.holders]

theorem unlock (h : Pruned now s s') :
    Pruned now (s.unlock key u).1 (s'.unlock key u).1 ∧
      (s'.unlock key u).2 = (s.unlock key u).2 := by
  by_cases hu : ∃ t, s.holders.get? key = some (u, t)
  · obtain ⟨t, ht⟩ := hu
    have hfree : Pruned now { s with holders := s.holders.erase key }
        { s' with holders := s'.holders.erase key } :=
      h.level ⟨rfl, rfl, rfl⟩ ⟨rfl, rfl, rfl⟩ h.latch (by rw [h.holders])
    rw [unlock_of_mem ht, unlock_of_mem (h.holders ▸ ht), h.latch]
    exact ⟨hfree.leaveLatch.1, rfl⟩
  · have hnot : ∀ t, s.holders.get? key ≠ some (u, t) := fun t ht => hu ⟨t, ht⟩
    rw [unlock_of_not_mem hnot, unlock_of_not_mem (h.holders ▸ hnot)]
    exact ⟨h, rfl⟩

/-! ### Attempts -/

theorem start (h : Pruned now s s') (ho : Orderly rate s) (ha : a.IsWhole rate) :
    Pruned now (s.start t now a).1 (s'.start t now a).1 ∧
      (s'.start t now a).2 = (s.start t now a).2 := by
  cases a with
  | token key wait plan =>
    cases ha
    have hname : s'.bucketName key rate.scope = s.bucketName key rate.scope := by
      cases rate.scope with
      | whole => rfl
      | perClient =>
        unfold bucketName
        rw [h.client]
    simp only [Store.start, hname]
    exact h.tryToken ho
  | permits key plan demand => exact h.tryPermits
  | lock key u wait =>
    simp only [Store.start]
    split
    · exact h.tryLatch
    · exact h.enterLatch
  | named key wait =>
    obtain ⟨hp, hsame⟩ := @enterLatch _ _ t _ (now + wait.nanos) (lockName key) none h
    have hw := fun w => @enterLatch_waiting s t (now + wait.nanos) (lockName key) none w
    simp only [Store.start]
    generalize s.enterLatch t (lockName key) none (now + wait.nanos) = x at hp hsame hw
    generalize s'.enterLatch t (lockName key) none (now + wait.nanos) = x' at hp hsame
    obtain ⟨r, l⟩ := x
    obtain ⟨r', l'⟩ := x'
    cases hsame
    cases l with
    | done o => exact ⟨hp, rfl⟩
    | waiting w =>
      cases hw w rfl
      dsimp only
      split
      · exact ⟨hp.leaveLatch.1, rfl⟩
      · exact ⟨hp, rfl⟩

theorem begin (h : Pruned now s s') (ho : Orderly rate s) (ha : a.IsWhole rate) :
    Pruned now (s.begin t now a).1 (s'.begin t now a).1 ∧
      (s'.begin t now a).2 = (s.begin t now a).2 := by
  unfold Store.begin
  split
  · exact ⟨h, rfl⟩
  · exact h.start ho ha

theorem resume (h : Pruned now s s') (ho : Orderly rate s) (hw : w.IsWhole rate)
    (ht : ∀ key, w.pool? = some key → t ∈ s.callers key) :
    Pruned now (s.resume t now w).1 (s'.resume t now w).1 ∧
      (s'.resume t now w).2 = (s.resume t now w).2 := by
  cases w with
  | token bucket plan deadline wake =>
    cases hw
    simp only [Store.resume]
    split
    · obtain ⟨hp, hsame⟩ := @tryToken _ _ t _ deadline bucket _ h ho
      exact ⟨hp, by rw [hsame]⟩
    · exact ⟨h, rfl⟩
  | turn name owner deadline =>
    simp only [Store.resume, h.latch]
    split
    · exact ⟨h.grantLatch, rfl⟩
    · split
      · obtain ⟨hp, hsame⟩ := @leaveLatch _ _ t _ name h
        exact ⟨hp, by rw [hsame]⟩
      · exact ⟨h, rfl⟩
  | permits key plan n deadline => exact h.resumePermits (ht key rfl)

theorem cancel (h : Pruned now s s') (ht : ∀ key, w.pool? = some key → t ∈ s.callers key) :
    Pruned now (s.cancel t w).1 (s'.cancel t w).1 ∧ (s'.cancel t w).2 = (s.cancel t w).2 := by
  cases w with
  | token => exact ⟨h, rfl⟩
  | turn => exact h.leaveLatch
  | permits key plan n deadline =>
    obtain ⟨p, hp, hp'⟩ := h.get?_of_mem (ht key rfl)
    simp only [Store.cancel, Table.modify, hp, hp', and_true]
    exact h.insertPool

end Pruned

end Store

/-! ## Runs with some moves left out -/

section

variable {σ μ : Type} {step : σ → μ → σ} {fits : σ → μ → Bool} {s : σ} {m : μ} {moves : List μ}

/-- Every move of the run fits the state in which it is made. -/
def allFit (step : σ → μ → σ) (fits : σ → μ → Bool) : σ → List μ → Bool
  | _, [] => true
  | s, m :: moves => fits s m && allFit step fits (step s m) moves

theorem allFit_append {later : List μ} : allFit step fits s (moves ++ later) =
    (allFit step fits s moves && allFit step fits (moves.foldl step s) later) := by
  induction moves generalizing s with
  | nil => simp [allFit]
  | cons m' moves ih => simp only [List.cons_append, allFit, ih, Bool.and_assoc, List.foldl_cons]

theorem allFit_concat : allFit step fits s (moves ++ [m]) =
    (allFit step fits s moves && fits (moves.foldl step s) m) := by
  simp [allFit_append, allFit]

/-- A run stays related to the one without the moves that `keep` rejects, if these moves make no
difference and the others keep the relation where they fit. `I` is what holds in the shorter run. -/
theorem foldl_filter_related {R : σ → σ → Prop} {I : σ → Prop} {keep : μ → Bool} (h₀ : R s s)
    (hI : ∀ moves : List μ, I (moves.foldl step s))
    (hskip : ∀ r r' m, keep m = false → R r r' → R r (step r' m))
    (hkeep : ∀ r r' m, keep m = true → I r → fits r m = true → R r r' → R (step r m) (step r' m))
    (hfit : allFit step fits s (moves.filter keep) = true) :
    R ((moves.filter keep).foldl step s) (moves.foldl step s) := by
  induction moves using List.reverseRecOn with
  | nil => exact h₀
  | append_singleton moves m ih =>
    rw [List.filter_append] at hfit ⊢
    cases hm : keep m with
    | false =>
      have hnone : [m].filter keep = [] := by simp [hm]
      rw [hnone, List.append_nil] at hfit ⊢
      rw [List.foldl_append]
      exact hskip _ _ _ hm (ih hfit)
    | true =>
      have hone : [m].filter keep = [m] := by simp [hm]
      rw [hone, allFit_concat, Bool.and_eq_true] at hfit
      rw [hone, List.foldl_append, List.foldl_append]
      exact hkeep _ _ _ hm (hI _) hfit.2 (ih hfit.1)

end

end Turnstile.Local
