import Turnstile.Local.Attempt

/-!
# One key of a store

What the operations of a store do to the latch, the pool and the holder of one key. What is read of
a pool that may not be there is `ofPool`: it depends on this pool alone.

A latch changes hands only when its holder lets go. `Turned` says all that a look at an attempt for
a latch can do: it is granted, and then nobody else held the latch, or it is refused or waits, and
then the latch stays where it is. Of a pool it matters whether all its permits are there (`Rested`)
or one acquisition is out (`Lent`): asking a rested pool for its whole capacity is granted at once.
-/

namespace Turnstile.Local

namespace Bucket

variable {ν : Type} [Quantity ν]

/-- The plan and the times of a bucket after a draw are those of the draw. -/
theorem take_plan (b : Bucket ν) (plan : RatePlan) (now : Nat) :
    (b.take plan now).1.plan = plan ∧ (b.take plan now).1.lastRefill = now ∧
      (b.take plan now).1.lastTouched = now := by
  unfold take
  dsimp only
  split <;> exact ⟨rfl, rfl, rfl⟩

end Bucket

namespace Latch

variable {l : Latch} {t : Ticket}

/-- The tickets that hold the latch or stand in line. -/
def members : Latch → List Ticket
  | idle => []
  | held h line => h :: line

theorem isIdle_iff : l.isIdle = true ↔ l.holder? = none := by
  cases l <;> simp [isIdle, holder?]

theorem eq_idle (h : l.isIdle = true) : l = idle := by
  cases l
  · rfl
  · cases h

theorem holder?_mem {x : Ticket} (h : l.holder? = some x) : x ∈ l.members := by
  cases l with
  | idle => cases h
  | held y line => cases h; exact List.mem_cons_self ..

theorem holder?_enter (h : l.isIdle = false) : (l.enter t).holder? = l.holder? := by
  cases l
  · cases h
  · rfl

theorem members_enter {x : Ticket} (h : x ∈ (l.enter t).members) : x = t ∨ x ∈ l.members := by
  cases l with
  | idle => exact .inl (List.mem_singleton.1 h)
  | held y line =>
    simp only [enter, members, List.mem_cons, List.mem_append, List.not_mem_nil, or_false] at h ⊢
    rcases h with h | h | h
    · exact .inr (.inl h)
    · exact .inr (.inr h)
    · exact .inl h

theorem holder?_leave (h : l.holder? ≠ some t) : (l.leave t).1.holder? = l.holder? := by
  cases l with
  | idle => rfl
  | held y line =>
    have : y ≠ t := fun he => h (congrArg some he)
    simp [leave, this, holder?]

theorem members_leave {x : Ticket} (h : x ∈ (l.leave t).1.members) : x ∈ l.members := by
  cases l with
  | idle => exact h
  | held y line =>
    by_cases hy : y = t
    · rw [leave, if_pos hy] at h
      cases line with
      | nil => cases h
      | cons z line => exact List.mem_cons_of_mem _ h
    · rw [leave, if_neg hy] at h
      rcases List.mem_cons.1 h with h | h
      · exact h ▸ List.mem_cons_self ..
      · exact List.mem_cons_of_mem _ (List.mem_of_mem_erase h)

end Latch

namespace Store

variable {s s' : Store} {t : Ticket} {now : Nat} {name key : String} {owner : Option Ulid}

/-! ### The pool of a key -/

section

variable {α : Type} {d : α} {f : Pool → α} {p : Pool}

/-- What `f` reads of the pool of the key, or `d` if there is none. -/
def ofPool (s : Store) (key : String) (d : α) (f : Pool → α) : α := (s.pools.get? key).elim d f

theorem ofPool_of_get?_eq (h : s'.pools.get? key = s.pools.get? key) :
    s'.ofPool key d f = s.ofPool key d f := by
  unfold ofPool
  rw [h]

theorem ofPool_congr (h : s'.pools = s.pools) : s'.ofPool key d f = s.ofPool key d f :=
  ofPool_of_get?_eq (by rw [h])

theorem ofPool_of_get? (h : s.pools.get? key = some p) : s.ofPool key d f = f p := by
  unfold ofPool
  rw [h]
  rfl

theorem ofPool_of_none (h : s.pools.get? key = none) : s.ofPool key d f = d := by
  unfold ofPool
  rw [h]
  rfl

theorem exists_of_mem_ofPool {x : α} {f : Pool → List α} (h : x ∈ s.ofPool key [] f) :
    ∃ p, s.pools.get? key = some p ∧ x ∈ f p := by
  cases hp : s.pools.get? key with
  | none =>
    rw [ofPool_of_none hp] at h
    cases h
  | some p =>
    rw [ofPool_of_get? hp] at h
    exact ⟨p, rfl, h⟩

theorem ofPool_insert (key' : String) :
    ({ s with pools := s.pools.insert key p } : Store).ofPool key' d f =
      if key' = key then f p else s.ofPool key' d f := by
  unfold ofPool
  rw [Table.get?_insert]
  by_cases h : key' = key
  · rw [if_pos h, if_pos h]
    rfl
  · rw [if_neg h, if_neg h]

/-- A pool that somebody waits at survives a sweep. -/
theorem ofPool_sweep (hf : ∀ p : Pool, p.isAwaited = false → f p = d) :
    (s.sweep now).ofPool key d f = s.ofPool key d f := by
  have hget : (s.sweep now).pools.get? key =
      (s.pools.get? key).filter fun p => p.isAwaited || !p.isExpired now := Table.get?_retain ..
  unfold ofPool
  rw [hget]
  cases s.pools.get? key with
  | none => rfl
  | some p =>
    by_cases hkeep : (p.isAwaited || !p.isExpired now) = true
    · simp [Option.filter, hkeep]
    · have hidle : p.isAwaited = false := by
        rw [Bool.not_eq_true, Bool.or_eq_false_iff] at hkeep
        exact hkeep.1
      simp [Option.filter, hkeep, hf p hidle]

end

/-! ### The latch of a name -/

@[simp] theorem latch_setLatch (l : Latch) : (s.setLatch name l).latch name = l := by
  unfold setLatch latch
  rw [Table.get?_insert, if_pos rfl]
  rfl

@[simp] theorem pools_grantLatch : (s.grantLatch t name owner).pools = s.pools := by
  cases owner <;> rfl

@[simp] theorem latch_grantLatch {name' : String} :
    (s.grantLatch t name owner).latch name' = s.latch name' := by
  cases owner <;> rfl

@[simp] theorem latch_leaveLatch :
    (s.leaveLatch name t).1.latch name = ((s.latch name).leave t).1 := by
  unfold leaveLatch latch
  cases h : s.latches.get? name with
  | none => simp [h, Latch.leave]
  | some l =>
    show ((s.setLatch name _).latches.get? name).getD .idle = _
    simp [setLatch, Table.get?_insert]

@[simp] theorem pools_leaveLatch : (s.leaveLatch name t).1.pools = s.pools := by
  unfold leaveLatch
  split <;> rfl

@[simp] theorem holders_leaveLatch : (s.leaveLatch name t).1.holders = s.holders := by
  unfold leaveLatch
  split <;> rfl

/-- Nothing was granted, and not because the store could not be reached. -/
def Denies : Outcome → Prop
  | .ok g => g = none
  | .error e => e.isUnavailable = false

/-- All that a look at an attempt for a latch can do; `t` wants it, in the name of `owner`. -/
inductive Turned (s : Store) (t : Ticket) (name : String) (owner : Option Ulid) :
    Store → Progress → Prop
  | granted {s' : Store} : (s.latch name).holder? = none ∨ (s.latch name).holder? = some t →
    (s'.latch name).holder? = some t → s'.holders = (s.grantLatch t name owner).holders →
    Turned s t name owner s' (.done (.ok (some t)))
  | refused {s' : Store} {o : Outcome} : Denies o →
    (s'.latch name).holder? = (s.latch name).holder? → s'.holders = s.holders →
    Turned s t name owner s' (.done o)
  | waits {s' : Store} (deadline : Nat) :
    (s'.latch name).holder? = (s.latch name).holder? → s'.holders = s.holders →
    Turned s t name owner s' (.waiting (.turn name owner deadline))

/-- A look for a latch leaves the pools alone and brings nobody but `t` to the latch. -/
structure Look (s : Store) (t : Ticket) (name : String) (owner : Option Ulid) (s' : Store)
    (p : Progress) : Prop where
  turned : Turned s t name owner s' p
  pools : s'.pools = s.pools
  members : ∀ x ∈ (s'.latch name).members, x = t ∨ x ∈ (s.latch name).members

theorem Look.refuse {o : Outcome} (ho : Denies o) : Look s t name owner s (.done o) :=
  ⟨.refused ho rfl rfl, rfl, fun _ hx => .inr hx⟩

/-- A ticket that is new to the latch gives up waiting for it. -/
theorem Look.giveUp {w : Waiting} (h : Look s t name owner s' (.waiting w))
    (ht : t ∉ (s.latch name).members) :
    Look s t name owner (s'.cancel t w).1 (.done (.ok none)) := by
  obtain ⟨turned, hp, hm⟩ := h
  cases turned with
  | waits deadline hl hh =>
    have hne : (s'.latch name).holder? ≠ some t := fun he => ht (Latch.holder?_mem (hl ▸ he))
    refine ⟨.refused rfl ?_ (by rw [← hh]; exact holders_leaveLatch), ?_, fun x hx => hm x ?_⟩
    · rw [← hl, ← Latch.holder?_leave hne]
      exact congrArg Latch.holder? latch_leaveLatch
    · rw [← hp]
      exact pools_leaveLatch
    · exact Latch.members_leave (latch_leaveLatch (s := s') ▸ hx)

theorem Look.take (hi : (s.latch name).isIdle = true) :
    Look s t name owner ((s.setLatch name (.held t [])).grantLatch t name owner)
      (.done (.ok (some t))) := by
  refine ⟨.granted (.inl (Latch.isIdle_iff.1 hi)) (by simp [Latch.holder?]) ?_, ?_, ?_⟩
  · cases owner <;> rfl
  · rw [pools_grantLatch]
    rfl
  · simp [Latch.members]

theorem enterLatch_look (deadline : Nat) :
    Look s t name owner (s.enterLatch t name owner deadline).1
      (s.enterLatch t name owner deadline).2 := by
  by_cases hi : (s.latch name).isIdle = true
  · have he : s.enterLatch t name owner deadline =
        ((s.setLatch name (.held t [])).grantLatch t name owner, .done (.ok (some t))) := by
      rw [enterLatch, if_pos hi, Latch.eq_idle hi]
      rfl
    rw [he]
    exact .take hi
  · rw [Bool.not_eq_true] at hi
    have he : s.enterLatch t name owner deadline =
        (s.setLatch name ((s.latch name).enter t), .waiting (.turn name owner deadline)) := by
      rw [enterLatch, hi]
      rfl
    rw [he]
    refine ⟨.waits deadline ?_ rfl, rfl, fun x hx => ?_⟩
    · rw [latch_setLatch, Latch.holder?_enter hi]
    · rw [latch_setLatch] at hx
      exact Latch.members_enter hx

theorem tryLatch_look {u : Ulid} :
    Look s t name (some u) (s.tryLatch t name u).1 (s.tryLatch t name u).2 := by
  unfold tryLatch
  split
  · rename_i hi
    exact .take hi
  · exact .refuse rfl

end Store

/-- The latch that an attempt wants, and in whose name. -/
def Attempt.turn? : Attempt → Option (String × Option Ulid)
  | lock key owner _ => some (key, some owner)
  | named key _ => some (Store.lockName key, none)
  | _ => none

namespace Store

variable {s s' : Store} {t : Ticket} {now : Nat} {name key : String} {owner : Option Ulid}

theorem start_look {a : Attempt} (ha : a.turn? = some (name, owner))
    (ht : t ∉ (s.latch name).members) :
    Look s t name owner (s.start t now a).1 (s.start t now a).2 := by
  cases a with
  | token => cases ha
  | permits => cases ha
  | lock key u wait =>
    cases ha
    simp only [start]
    split
    · exact tryLatch_look
    · exact enterLatch_look _
  | named key wait =>
    cases ha
    have he : Look s t (lockName key) none
        (s.enterLatch t (lockName key) none (now + wait.nanos)).1
        (s.enterLatch t (lockName key) none (now + wait.nanos)).2 := enterLatch_look _
    simp only [start]
    generalize s.enterLatch t (lockName key) none (now + wait.nanos) = r at he
    obtain ⟨s', p⟩ := r
    cases p with
    | done o => exact he
    | waiting w =>
      dsimp only
      split
      · exact he.giveUp ht
      · exact he

end Store

/-! ## Bad input -/

/-- The check tells of bad input and of nothing else. -/
def Rejects (r : Except GuardError Unit) : Prop := ∀ e, r = .error e → e.isUnavailable = false

theorem Rejects.bind {r : Except GuardError Unit} {f : Unit → Except GuardError Unit}
    (h : Rejects r) (hf : Rejects (f ())) : Rejects (r >>= f) := by
  intro e he
  cases r with
  | error e' => cases he; exact h _ rfl
  | ok u => exact hf e he

theorem checkKey_rejects (key : String) : Rejects (Limits.checkKey key) := by
  intro e he
  unfold Limits.checkKey at he
  split at he
  · cases he; rfl
  · split at he <;> cases he
    rfl

theorem checkWait_rejects (wait : Duration) : Rejects (Limits.checkWait wait) := by
  intro e he
  unfold Limits.checkWait at he
  split at he <;> cases he
  rfl

theorem checkRate_rejects (plan : RatePlan) : Rejects (Limits.checkRate plan) := by
  intro e he
  unfold Limits.checkRate at he
  grind [GuardError.isUnavailable]

theorem checkPermits_rejects (permits capacity : UInt32) :
    Rejects (Limits.checkPermits permits capacity) := by
  intro e he
  unfold Limits.checkPermits at he
  split at he
  · cases he; rfl
  · split at he <;> cases he
    rfl

theorem Attempt.check_rejects (a : Attempt) : Rejects a.check := by
  cases a with
  | token key wait plan =>
    exact (checkKey_rejects key).bind ((checkWait_rejects wait).bind (checkRate_rejects plan))
  | lock key owner wait => exact (checkKey_rejects key).bind (checkWait_rejects wait)
  | named key wait => exact (checkKey_rejects key).bind (checkWait_rejects wait)
  | permits key plan demand =>
    exact (checkKey_rejects key).bind
      ((checkWait_rejects demand.wait).bind (checkPermits_rejects _ _))

/-- It waits, or it was answered without an error. -/
def Progress.IsFine (p : Progress) : Prop := ∀ e, p ≠ .done (.error e)

theorem Progress.IsFine.ok {g : Option Ticket} : (done (.ok g)).IsFine := fun _ => nofun

theorem Progress.IsFine.waiting {w : Waiting} : (Progress.waiting w).IsFine := fun _ => nofun

namespace Store

variable {s s' : Store} {t : Ticket} {now deadline n : Nat} {a : Attempt} {w : Waiting}
  {name key : String} {owner : Option Ulid} {plan : PoolPlan}

theorem tryToken_isFine {plan : RatePlan} : (s.tryToken t now name plan deadline).2.IsFine := by
  unfold tryToken
  split
  · exact .ok
  · split
    · exact .waiting
    · exact .ok

theorem tryLatch_isFine {owner : Ulid} : (s.tryLatch t name owner).2.IsFine := by
  unfold tryLatch
  split
  · exact .ok
  · exact .ok

theorem enterLatch_isFine : (s.enterLatch t name owner deadline).2.IsFine := by
  unfold enterLatch
  dsimp only
  split
  · exact .ok
  · exact .waiting

theorem tryPermits_isFine : (s.tryPermits t now key plan n deadline).2.IsFine := by
  unfold tryPermits
  split
  · exact .ok
  · exact .ok
  · split
    · exact .ok
    · exact .waiting

theorem start_isFine : (s.start t now a).2.IsFine := by
  cases a with
  | token key wait plan => exact tryToken_isFine
  | permits key plan demand => exact tryPermits_isFine
  | lock key owner wait =>
    simp only [start]
    split
    · exact tryLatch_isFine
    · exact enterLatch_isFine
  | named key wait =>
    have henter := @enterLatch_isFine s t (now + wait.nanos) (lockName key) none
    simp only [start]
    split
    · split
      · exact .ok
      · exact .waiting
    · exact henter

theorem begin_isFine (h : a.check = .ok ()) : (s.begin t now a).2.IsFine := by
  unfold begin
  rw [h]
  exact start_isFine

/-- An attempt that waits has had its input checked. -/
theorem resume_isFine : (s.resume t now w).2.2.IsFine := by
  cases w with
  | token bucket plan deadline wake =>
    simp only [resume]
    split
    · exact tryToken_isFine
    · exact .waiting
  | turn name owner deadline =>
    simp only [resume]
    split
    · exact .ok
    · split
      · exact .ok
      · exact .waiting
  | permits key plan n deadline =>
    simp only [resume]
    split
    · exact .ok
    · split
      · exact tryPermits_isFine
      · split
        · exact .ok
        · exact .waiting

theorem begin_look {a : Attempt} (ha : a.turn? = some (name, owner))
    (ht : t ∉ (s.latch name).members) :
    Look s t name owner (s.begin t now a).1 (s.begin t now a).2 := by
  unfold begin
  split
  · rename_i he
    exact .refuse (a.check_rejects _ he)
  · exact start_look ha ht

theorem resume_look (deadline : Nat) :
    Look s t name owner (s.resume t now (.turn name owner deadline)).1
      (s.resume t now (.turn name owner deadline)).2.2 := by
  unfold resume
  dsimp only
  split
  · rename_i hh
    refine ⟨.granted (.inr hh) (by rw [latch_grantLatch, hh]) rfl, pools_grantLatch, fun x hx => ?_⟩
    rw [latch_grantLatch] at hx
    exact .inr hx
  · rename_i hh
    split
    · refine ⟨.refused rfl ?_ holders_leaveLatch, pools_leaveLatch, fun x hx => ?_⟩
      · rw [latch_leaveLatch, Latch.holder?_leave hh]
      · rw [latch_leaveLatch] at hx
        exact .inr (Latch.members_leave hx)
    · exact ⟨.waits deadline rfl rfl, rfl, fun x hx => .inr hx⟩

/-! ## Pools with nothing out, and with one acquisition out -/

/-- All permits are there. -/
def Rested (s : Store) (key : String) : Prop :=
  ∀ p, s.pools.get? key = some p → p.outstanding = [] ∧ p.available = p.capacity

/-- One acquisition is out, and all other permits are there. -/
def Lent (s : Store) (key : String) : Prop :=
  ∀ p, s.pools.get? key = some p → ∃ n, p.outstanding = [n] ∧ p.available + n = p.capacity

/-- What became of the pool does not matter to the latches, nor who holds which lock. -/
structure PoolsOnly (s s' : Store) : Prop where
  latches : s'.latches = s.latches
  holders : s'.holders = s.holders

theorem PoolsOnly.latch (h : PoolsOnly s s') : s'.latch name = s.latch name := by
  unfold Store.latch
  rw [h.latches]

/-- A rested pool grants its whole capacity at once. -/
theorem takePermits_of_rested (plan : PoolPlan) (now : Nat) (hr : s.Rested key) :
    (s.takePermits key plan plan.capacity.toNat now).2 = .granted ∧
      (s.takePermits key plan plan.capacity.toNat now).1.Lent key ∧
      PoolsOnly s (s.takePermits key plan plan.capacity.toNat now).1 := by
  have hfull : ∀ p : Pool, p = (s.pools.get? key).getD (.full plan now) →
      p.outstanding = [] ∧ p.available = p.capacity := by
    rintro p rfl
    cases h : s.pools.get? key with
    | none => exact ⟨rfl, rfl⟩
    | some p => exact hr p h
  have htake : ∀ p : Pool, p.outstanding = [] ∧ p.available = p.capacity →
      (p.take plan plan.capacity.toNat now).2 = .granted ∧
        (p.take plan plan.capacity.toNat now).1.outstanding = [plan.capacity.toNat] ∧
        (p.take plan plan.capacity.toNat now).1.available + plan.capacity.toNat =
          (p.take plan plan.capacity.toNat now).1.capacity := by
    rintro p ⟨ho, ha⟩
    by_cases he : p.isExpired now = true <;> simp [Pool.take, Pool.reshape, he, ho, ha]
  obtain ⟨hg, hout, hcap⟩ := htake _ (hfull _ rfl)
  refine ⟨hg, fun p hp => ?_, ⟨rfl, rfl⟩⟩
  simp only [takePermits, Table.get?_insert, if_true, Option.some.injEq] at hp
  subst hp
  exact ⟨_, hout, hcap⟩

theorem giveBack_of_lent (now : Nat) (hl : s.Lent key) :
    (s.giveBack key now).1.Rested key ∧ PoolsOnly s (s.giveBack key now).1 := by
  unfold giveBack
  split
  · rename_i p hp
    obtain ⟨n, ho, ha⟩ := hl p hp
    refine ⟨fun p' hp' => ?_, ⟨rfl, rfl⟩⟩
    simp only [Pool.giveBack, ho, Table.get?_insert, if_true, Option.some.injEq] at hp'
    subst hp'
    exact ⟨rfl, by simp [ha]⟩
  · rename_i hp
    exact ⟨fun p' hp' => by simp [hp] at hp', ⟨rfl, rfl⟩⟩

/-- Asking a rested pool for its whole capacity: granted at once, unless the wait is too long. -/
theorem begin_permits (t : Ticket) (now : Nat) (plan : PoolPlan) (wait : Duration)
    (hr : s.Rested key)
    (hk : Limits.checkKey key = .ok ()) (hp : 0 < plan.capacity)
    (hm : plan.capacity ≤ Limits.maxPermits) :
    (Limits.maxWait < wait ∧
        s.begin t now (.permits key plan ⟨plan.capacity, wait⟩) =
          (s, .done (.error (.invalid .waitTooLong)))) ∨
      wait ≤ Limits.maxWait ∧ ∃ s', s'.Lent key ∧ PoolsOnly s s' ∧
        s.begin t now (.permits key plan ⟨plan.capacity, wait⟩) = (s', .done (.ok (some t))) := by
  have hperm : Limits.checkPermits plan.capacity plan.capacity = .ok () := by
    have hz : plan.capacity ≠ 0 := fun h => by
      rw [h] at hp
      exact UInt32.lt_irrefl 0 hp
    unfold Limits.checkPermits
    rw [if_neg hz, if_neg]
    rintro (h | h) <;> exact UInt32.not_lt.2 hm h
  by_cases hw : Limits.maxWait < wait
  · refine .inl ⟨hw, ?_⟩
    have hc : (Attempt.permits key plan ⟨plan.capacity, wait⟩).check =
        .error (.invalid .waitTooLong) := by
      simp only [Attempt.check, hk, Limits.checkWait]
      rw [if_pos hw]
      rfl
    rw [begin, hc]
  · have hc : (Attempt.permits key plan ⟨plan.capacity, wait⟩).check = .ok () := by
      simp only [Attempt.check, hk, Limits.checkWait, hperm]
      rw [if_neg hw]
      rfl
    obtain ⟨hg, hl, ho⟩ := takePermits_of_rested plan now hr
    refine .inr ⟨Nat.le_of_not_lt hw, _, hl, ho, ?_⟩
    rw [begin, hc]
    simp only [start, tryPermits]
    generalize s.takePermits key plan plan.capacity.toNat now = r at hg
    obtain ⟨s', look⟩ := r
    cases hg
    rfl

/-! ## What others may do -/

/-- The latch `name` and the holder of `key` stay, and so does its pool, unless it is dropped. -/
structure Agrees (name key : String) (s s' : Store) : Prop where
  latch : s'.latch name = s.latch name
  pool : ∀ p, s'.pools.get? key = some p → s.pools.get? key = some p
  holder : s'.holders.get? key = s.holders.get? key

theorem Agrees.refl : Agrees name key s s := ⟨rfl, fun _ h => h, rfl⟩

/-- A sweep takes away latches that are idle and pools, and nothing that somebody holds. -/
theorem sweep_agrees : Agrees name key s (s.sweep now) where
  latch := by
    unfold latch sweep
    rw [Table.get?_retain]
    cases s.latches.get? name with
    | none => rfl
    | some l => cases l <;> rfl
  pool p hp := by
    unfold sweep at hp
    rw [Table.get?_retain] at hp
    exact (Option.filter_eq_some_iff.1 hp).1
  holder := rfl

theorem unlock_of_holder {u : Ulid} (h : s.holders.get? key = some (u, t)) :
    s.isHeldBy key u = true ∧ (s.unlock key u).2.1 = true ∧
      (s.unlock key u).1.pools = s.pools ∧
      (s.unlock key u).1.latch key = ((s.latch key).leave t).1 := by
  have hu : s.unlock key u =
      ((({ s with holders := s.holders.erase key } : Store).leaveLatch key t).1, true,
        (({ s with holders := s.holders.erase key } : Store).leaveLatch key t).2) := by
    rw [unlock, h]
    exact if_pos rfl
  rw [hu]
  refine ⟨by simp [isHeldBy, h], rfl, pools_leaveLatch, latch_leaveLatch⟩

end Store

end Turnstile.Local
