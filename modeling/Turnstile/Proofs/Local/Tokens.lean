import Mathlib.Algebra.BigOperators.Intervals
import Mathlib.Algebra.Order.BigOperators.Group.Finset
import Mathlib.Data.Rat.Floor
import Mathlib.Tactic.Linarith
import Mathlib.Tactic.Positivity
import Mathlib.Tactic.Ring
import Turnstile.Proofs.Local.Store

/-!
# How many draws a bucket grants

A bucket is drawn from at times that do not go back, under a plan that may change with every draw.
Counted exactly, the draws of a window that are granted are at most the permits of its first plan
and what was earned inside the window, each gap at the rate of the plan before it
(`Bucket.draws_bounded`). The tokens above zero are the potential: after a draw they are at most
the permits of its plan, a gap adds what it earns, and a grant costs one.

Doubles round, so the bound is about rational numbers in place of them; the looks are the same.
-/

namespace Turnstile

/-- Exact arithmetic. -/
instance : Quantity ℚ where
  count n := n.toNat
  seconds d := d.nanos / 1_000_000_000
  duration x :=
    let n := x * 1_000_000_000
    if n < 0 then .longest else .ofNanos (roundHalfEven n.num.toNat n.den)
  add a b := a + b
  sub a b := a - b
  mul a b := a * b
  div a b := a / b
  le a b := a ≤ b
  one := 1

theorem Quantity.atMost_eq_min (a b : ℚ) : Quantity.atMost a b = min a b := by
  simp only [Quantity.atMost, Quantity.le, decide_eq_true_eq, min_def]

namespace Local

/-- One look at a bucket, under a plan of its own. -/
structure Draw where
  plan : RatePlan
  time : Nat

namespace Draw

/-- The time does not go back, and the next draw finds a bucket that has not expired. -/
structure Paced (d e : Draw) : Prop where
  forward : d.time ≤ e.time
  alive : e.time - d.time ≤ d.plan.lifetime.nanos

instance (d e : Draw) : Decidable (d.Paced e) :=
  decidable_of_iff (d.time ≤ e.time ∧ e.time - d.time ≤ d.plan.lifetime.nanos)
    ⟨fun h => ⟨h.1, h.2⟩, fun h => ⟨h.1, h.2⟩⟩

/-- What a bucket earns from one draw to the next, by the plan of the first. -/
def earned (d e : Draw) : ℚ :=
  ((e.time : ℚ) - d.time) * d.plan.permits.toNat / d.plan.interval.nanos

theorem Paced.earned_nonneg {d e : Draw} (h : d.Paced e) : 0 ≤ d.earned e := by
  have hle : (d.time : ℚ) ≤ e.time := by exact_mod_cast h.forward
  have hgap : (0 : ℚ) ≤ e.time - d.time := by linarith
  unfold earned
  positivity

end Draw

namespace Bucket

section Run

variable {ν : Type} [Quantity ν]

/-- A draw from a bucket, which is created full. -/
def draw (b? : Option (Bucket ν)) (d : Draw) : Bucket ν × Take :=
  (b?.getD (.full d.plan d.time)).take d.plan d.time

/-- The bucket before the `n`-th draw. -/
def before (b? : Option (Bucket ν)) (draws : ℕ → Draw) : ℕ → Option (Bucket ν)
  | 0 => b?
  | n + 1 => some (draw (before b? draws n) (draws n)).1

/-- The bucket after the `n`-th draw, and what the draw came to. -/
def drawn (b? : Option (Bucket ν)) (draws : ℕ → Draw) (n : ℕ) : Bucket ν × Take :=
  draw (before b? draws n) (draws n)

/-- How many of the draws from the `i`-th to the `j`-th were granted. -/
def granted (b? : Option (Bucket ν)) (draws : ℕ → Draw) (i j : ℕ) : ℕ :=
  ((Finset.Icc i j).filter fun k => (drawn b? draws k).2 = .taken).card

theorem granted_self (b? : Option (Bucket ν)) (draws : ℕ → Draw) (i : ℕ) :
    granted b? draws i i = if (drawn b? draws i).2 = .taken then 1 else 0 := by
  unfold granted
  rw [Finset.Icc_self, Finset.filter_singleton]
  split <;> rfl

theorem granted_succ (b? : Option (Bucket ν)) (draws : ℕ → Draw) {i j : ℕ} (hij : i ≤ j) :
    granted b? draws i (j + 1) =
      granted b? draws i j + if (drawn b? draws (j + 1)).2 = .taken then 1 else 0 := by
  have hnew : j + 1 ∉ (Finset.Icc i j).filter fun k => (drawn b? draws k).2 = .taken := by simp
  unfold granted
  rw [← Finset.insert_Icc_right_eq_Icc_add_one (by omega), Finset.filter_insert]
  split
  · rw [Finset.card_insert_of_notMem hnew]
  · rfl

end Run

variable {b : Bucket ℚ} {plan : RatePlan} {now : Nat}

/-- A draw grants a whole token if there is one, and takes nothing else. -/
theorem take_cases (b : Bucket ℚ) (plan : RatePlan) (now : Nat) :
    let filled := min (((b.renew plan now).refill now).tokens) plan.permits.toNat
    1 ≤ filled ∧ (b.take plan now).2 = .taken ∧ (b.take plan now).1.tokens = filled - 1 ∨
      filled < 1 ∧ (b.take plan now).2 ≠ .taken ∧ (b.take plan now).1.tokens = filled := by
  have hadopt : (((b.renew plan now).refill now).adopt plan now).tokens =
      min (((b.renew plan now).refill now).tokens) plan.permits.toNat :=
    Quantity.atMost_eq_min ..
  unfold take
  simp only [Quantity.le, Quantity.one, Quantity.sub, hadopt, decide_eq_true_eq]
  split
  · exact .inl ⟨‹_›, rfl, rfl⟩
  · exact .inr ⟨lt_of_not_ge ‹_›, nofun, hadopt⟩

/-- What a draw leaves, and the token that it may take, are not more than it found. -/
theorem take_spends (b : Bucket ℚ) (plan : RatePlan) (now : Nat) :
    max (b.take plan now).1.tokens 0 + (if (b.take plan now).2 = .taken then 1 else 0) ≤
      max (min (((b.renew plan now).refill now).tokens) (plan.permits.toNat : ℚ)) 0 := by
  obtain ⟨hone, htaken, htokens⟩ | ⟨hless, hwait, htokens⟩ := take_cases b plan now
  · rw [if_pos htaken, htokens, max_eq_left (by linarith), max_eq_left (by linarith)]
    linarith
  · rw [if_neg hwait, htokens, add_zero]

/-- Whatever the bucket was, a draw leaves no more than its plan can hold. -/
theorem take_le_permits (b : Bucket ℚ) (plan : RatePlan) (now : Nat) :
    max (b.take plan now).1.tokens 0 + (if (b.take plan now).2 = .taken then 1 else 0) ≤
      (plan.permits.toNat : ℚ) :=
  (take_spends b plan now).trans (max_le (min_le_right _ _) (Nat.cast_nonneg _))

theorem refill_tokens (b : Bucket ℚ) (now : Nat) (hnow : b.lastRefill ≤ now)
    (hfit : now - b.lastRefill < Duration.limit) :
    (b.refill now).tokens =
      min (b.tokens + ((now : ℚ) - b.lastRefill) * b.plan.permits.toNat / b.plan.interval.nanos)
        b.plan.permits.toNat := by
  have hsince : (Clock.since now b.lastRefill).nanos = now - b.lastRefill := by
    simp only [Clock.since, Duration.ofNanos, Duration.longest]
    omega
  unfold refill
  dsimp only
  rw [Quantity.atMost_eq_min]
  split
  · have heq : now = b.lastRefill := by omega
    subst heq
    simp only [sub_self, zero_mul, zero_div, add_zero]
    rfl
  · simp only [Quantity.add, Quantity.mul, Quantity.div, Quantity.seconds, Quantity.count, hsince,
      Nat.cast_sub hnow]
    congr 2
    -- Both counts are in nanoseconds, so the unit cancels.
    field_simp

theorem renew_of_alive (h : b.isExpired now = false) : b.renew plan now = b := by
  unfold renew
  rw [h]
  rfl

/-- After a draw the bucket has not expired before the next one. -/
theorem isExpired_of_paced {d e : Draw} (b : Bucket ℚ) (h : d.Paced e) :
    (b.take d.plan d.time).1.isExpired e.time = false := by
  obtain ⟨hplan, -, htouched⟩ := take_plan b d.plan d.time
  have halive := h.alive
  have hbound := d.plan.lifetime.bounded
  have hsince : Clock.since e.time d.time ≤ d.plan.lifetime := by
    show (Clock.since e.time d.time).nanos ≤ _
    simp only [Clock.since, Duration.ofNanos, Duration.longest]
    omega
  unfold isExpired
  rw [hplan, htouched, decide_eq_false_iff_not]
  exact Nat.not_lt.2 hsince

/-- From one draw to the next the tokens grow by no more than what was earned between them. -/
theorem refill_le_earned {d e : Draw} (b : Bucket ℚ) (h : d.Paced e) :
    ((b.take d.plan d.time).1.refill e.time).tokens ≤
      (b.take d.plan d.time).1.tokens + d.earned e := by
  obtain ⟨hplan, hrefill, -⟩ := take_plan b d.plan d.time
  have hforward := h.forward
  have halive := h.alive
  have hbound := d.plan.lifetime.bounded
  rw [refill_tokens _ _ (by omega) (by omega), hplan, hrefill]
  exact min_le_left _ _

/-- What is there after a second draw, with the token that it may take. -/
theorem take_le_earned {d e : Draw} (b : Bucket ℚ) (h : d.Paced e) :
    let b' := (b.take d.plan d.time).1
    max (b'.take e.plan e.time).1.tokens 0 + (if (b'.take e.plan e.time).2 = .taken then 1 else 0) ≤
      max b'.tokens 0 + d.earned e := by
  intro b'
  have hspends := take_spends b' e.plan e.time
  rw [renew_of_alive (isExpired_of_paced b h)] at hspends
  have hrefill : (b'.refill e.time).tokens ≤ b'.tokens + d.earned e := refill_le_earned b h
  have hearned := h.earned_nonneg
  refine hspends.trans (max_le ?_ ?_)
  · have hmin := min_le_left (b'.refill e.time).tokens (e.plan.permits.toNat : ℚ)
    have hmax := le_max_left b'.tokens 0
    linarith
  · have hmax := le_max_right b'.tokens 0
    linarith

/-- A larger plan does not change what is there, and neither does its rate before the next draw. -/
theorem take_of_raised (h : b.isExpired now = false)
    (hraised : b.plan.permits.toNat ≤ plan.permits.toNat) :
    (b.take plan now).1.tokens = (b.take b.plan now).1.tokens := by
  have hcap : (b.refill now).tokens ≤ b.plan.permits.toNat := by
    unfold refill
    dsimp only
    rw [Quantity.atMost_eq_min]
    exact min_le_right _ _
  have hcap' : (b.refill now).tokens ≤ plan.permits.toNat :=
    hcap.trans (by exact_mod_cast hraised)
  have hnew := take_cases b plan now
  have hold := take_cases b b.plan now
  simp only [renew_of_alive h, min_eq_left hcap, min_eq_left hcap'] at hnew hold
  obtain ⟨h₁, -, h₂⟩ | ⟨h₁, -, h₂⟩ := hnew <;> obtain ⟨h₃, -, h₄⟩ | ⟨h₃, -, h₄⟩ := hold
  · rw [h₂, h₄]
  · linarith
  · linarith
  · rw [h₂, h₄]

/-- A larger capacity creates no token: a draw under it leaves what it would have left under the
plan before. -/
def NoneCreated (b? : Option (Bucket ℚ)) (draws : ℕ → Draw) (k : ℕ) : Prop :=
  ∀ e : Draw, (draws k).Paced e → (draws k).plan.permits ≤ e.plan.permits →
    ((drawn b? draws k).1.take e.plan e.time).1.tokens =
      ((drawn b? draws k).1.take (draws k).plan e.time).1.tokens

/-- The potential at the `j`-th draw: the tokens left over can still be granted. -/
theorem granted_add_tokens_le (b? : Option (Bucket ℚ)) (draws : ℕ → Draw) {i j : ℕ} (hij : i ≤ j)
    (hpaced : ∀ k, i ≤ k → k < j → (draws k).Paced (draws (k + 1))) :
    granted b? draws i j + max (drawn b? draws j).1.tokens 0 ≤
      ((draws i).plan.permits.toNat : ℚ) +
        ∑ k ∈ Finset.Ico i j, (draws k).earned (draws (k + 1)) := by
  induction j, hij using Nat.le_induction with
  | base =>
    have hfirst := take_le_permits ((before b? draws i).getD (.full (draws i).plan (draws i).time))
      (draws i).plan (draws i).time
    rw [granted_self, Finset.Ico_self, Finset.sum_empty, add_zero, add_comm]
    push_cast
    exact hfirst
  | succ j hij ih =>
    have hbefore := ih fun k hik hkj => hpaced k hik (by omega)
    have hnext : max (drawn b? draws (j + 1)).1.tokens 0 +
          (if (drawn b? draws (j + 1)).2 = .taken then (1 : ℚ) else 0) ≤
        max (drawn b? draws j).1.tokens 0 + (draws j).earned (draws (j + 1)) :=
      take_le_earned ((before b? draws j).getD (.full (draws j).plan (draws j).time))
        (hpaced j hij (by omega))
    rw [granted_succ b? draws hij, Finset.sum_Ico_succ_top hij]
    push_cast
    linarith

/-- What is earned over a window under one plan, gap after gap. -/
theorem sum_earned {draws : ℕ → Draw} {i j : ℕ} (hij : i ≤ j) {plan : RatePlan}
    (hplan : ∀ k, i ≤ k → k < j → (draws k).plan = plan) :
    ∑ k ∈ Finset.Ico i j, (draws k).earned (draws (k + 1)) =
      (((draws j).time : ℚ) - (draws i).time) * plan.permits.toNat / plan.interval.nanos := by
  induction j, hij using Nat.le_induction with
  | base => simp
  | succ j hij ih =>
    rw [Finset.sum_Ico_succ_top hij, ih fun k hik hkj => hplan k hik (by omega)]
    unfold Draw.earned
    rw [hplan j hij (by omega)]
    ring

/-- The draws of a window: at most the permits of its first plan and what the gaps earned, each at
the rate of the plan before it. A larger capacity creates nothing, and under one plan a window of
length `T` grants at most `permits + permits * T / interval`. -/
theorem draws_bounded (b? : Option (Bucket ℚ)) (draws : ℕ → Draw) {i j : ℕ} (hij : i ≤ j)
    (hpaced : ∀ k, i ≤ k → k < j → (draws k).Paced (draws (k + 1))) :
    (granted b? draws i j : ℚ) ≤ (draws i).plan.permits.toNat +
        ∑ k ∈ Finset.Ico i j, ((draws (k + 1)).time - (draws k).time : ℚ) *
          (draws k).plan.permits.toNat / (draws k).plan.interval.nanos ∧
      (∀ k, i ≤ k → k ≤ j → NoneCreated b? draws k) ∧
      ∀ plan : RatePlan, (∀ k, i ≤ k → k ≤ j → (draws k).plan = plan) →
        ∀ T : ℕ, (draws j).time - (draws i).time ≤ T →
          (granted b? draws i j : ℚ) ≤
            plan.permits.toNat + plan.permits.toNat * T / plan.interval.nanos := by
  have hbound : (granted b? draws i j : ℚ) ≤ (draws i).plan.permits.toNat +
      ∑ k ∈ Finset.Ico i j, (draws k).earned (draws (k + 1)) := by
    have hpotential := granted_add_tokens_le b? draws hij hpaced
    have hleft := le_max_right (drawn b? draws j).1.tokens 0
    linarith
  refine ⟨hbound, ?_, ?_⟩
  · intro k _ _ e he hraised
    have hplan : (drawn b? draws k).1.plan = (draws k).plan := (take_plan ..).1
    have halive : (drawn b? draws k).1.isExpired e.time = false := isExpired_of_paced _ he
    have hcap : (drawn b? draws k).1.plan.permits.toNat ≤ e.plan.permits.toNat := by
      rw [hplan]
      exact hraised
    rw [← hplan]
    exact take_of_raised halive hcap
  · intro plan hplan T hT
    rw [hplan i le_rfl hij, sum_earned hij fun k hik hkj => hplan k hik (by omega)] at hbound
    have hlength : ((draws j).time : ℚ) - (draws i).time ≤ T := by
      have hcast : (((draws j).time : ℕ) : ℚ) ≤ ((T + (draws i).time : ℕ) : ℚ) := by
        exact_mod_cast (by omega : (draws j).time ≤ T + (draws i).time)
      push_cast at hcast
      linarith
    have hearned : (((draws j).time : ℚ) - (draws i).time) * plan.permits.toNat /
        plan.interval.nanos ≤ plan.permits.toNat * T / plan.interval.nanos := by
      rw [mul_comm (plan.permits.toNat : ℚ)]
      gcongr
    linarith

/-- Two permits a second, then three: a burst, and one more draw when a token was earned. -/
def sampleDraws (k : ℕ) : Draw :=
  ⟨⟨.whole, if k < 3 then 2 else 3, .ofSecs 1, .ofSecs 60⟩, if k < 3 then 0 else 500_000_000⟩

/-- Three of five draws are granted, as many as the bound allows. -/
theorem sampleDraws_bounded :
    (∀ k, 0 ≤ k → k < 4 → (sampleDraws k).Paced (sampleDraws (k + 1))) ∧
      granted (none : Option (Bucket ℚ)) sampleDraws 0 4 = 3 ∧
      (granted (none : Option (Bucket ℚ)) sampleDraws 0 4 : ℚ) ≤ 2 + (0 + 0 + 1 + 0) := by
  have hpaced : ∀ k, k < 4 → (sampleDraws k).Paced (sampleDraws (k + 1)) := by decide
  have hbound := (draws_bounded none sampleDraws (by decide : 0 ≤ 4) fun k _ => hpaced k).1
  refine ⟨fun k _ => hpaced k, by decide +kernel, hbound.trans (le_of_eq ?_)⟩
  decide +kernel

end Bucket

/-- The store after the first `n` draws from one of its buckets. -/
def Store.afterDraws (s : Store) (name : String) (draws : ℕ → Draw) : ℕ → Store
  | 0 => s
  | n + 1 =>
    let s := s.afterDraws name draws n
    (s.takeToken name (draws n).plan (draws n).time).1

theorem Store.get?_afterDraws (s : Store) (name : String) (draws : ℕ → Draw) (n : ℕ) :
    (s.afterDraws name draws n).buckets.get? name =
      Bucket.before (s.buckets.get? name) draws n := by
  induction n with
  | zero => rfl
  | succ n ih =>
    unfold afterDraws Bucket.before takeToken Bucket.draw
    dsimp only
    rw [ih, Table.get?_insert, if_pos rfl]

/-- What a store answers to draws is what the bucket of that name answers. -/
theorem Store.takeToken_afterDraws (s : Store) (name : String) (draws : ℕ → Draw) (n : ℕ) :
    ((s.afterDraws name draws n).takeToken name (draws n).plan (draws n).time).2 =
      (Bucket.drawn (s.buckets.get? name) draws n).2 := by
  unfold takeToken Bucket.drawn Bucket.draw
  rw [s.get?_afterDraws]

end Local

end Turnstile
