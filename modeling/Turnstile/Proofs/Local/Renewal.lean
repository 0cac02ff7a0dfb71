import Turnstile.Proofs.Local.Pruned
import Turnstile.Proofs.Local.Tokens

/-!
# Buckets that have expired

A look at a bucket that has expired fills it by the new plan, refills it under the plan that it had
before and adopts the new one at last. The refill caps the tokens by the old capacity, so that the
bucket is as good as new exactly if the new plan has no more permits than the old one
(`Bucket.take_eq_full_iff`). While that is so at every look, nobody notices sweeps
(`Meter.run_renewed`).

`Meter ν` is all that a store does for callers that ask for tokens, counted in `ν`. In doubles it is
what `Traffic` does for them (`Traffic.meter_run`). Doubles are opaque, so that what depends on how
they count permits is said of all numbers that count them exactly (`Quantity.Counts`).
-/

namespace Turnstile

namespace Quantity

/-- Permits are counted exactly, and one less tells how many there were. -/
class Counts (ν : Type) [Quantity ν] : Prop where
  le_count : ∀ m n : UInt32, le (count m : ν) (count n) = true ↔ m ≤ n
  one_le_count : ∀ n : UInt32, le one (count n : ν) = true ↔ 0 < n
  sub_one_inj : ∀ m n : UInt32, sub (count m : ν) one = sub (count n) one → m = n

instance : Counts ℚ where
  le_count m n := by
    simp [le, count, UInt32.le_iff_toNat_le]
  one_le_count n := by
    simp [le, one, count, UInt32.lt_iff_toNat_lt, Nat.one_le_cast, Nat.succ_le_iff]
  sub_one_inj m n h := by
    simpa [sub, one, count, UInt32.toNat_inj] using h

theorem atMost_self {ν : Type} [Quantity ν] (a : ν) : atMost a a = a := ite_self a

theorem atMost_count {ν : Type} [Quantity ν] [Counts ν] (m n : UInt32) :
    atMost (count m : ν) (count n) = count (min m n) := by
  have hmin : min m n = if m ≤ n then m else n := rfl
  unfold atMost
  rw [hmin]
  simp only [Counts.le_count]
  split <;> rfl

end Quantity

theorem Table.erase_of_get? {κ α : Type} [DecidableEq κ] {t : Table κ α} {k : κ}
    (h : t.get? k = none) : t.erase k = t := by
  have hne : ∀ e ∈ t.entries, (e.1 != k) = true := by
    rintro ⟨k', a⟩ he
    rw [bne_iff_ne]
    rintro rfl
    cases h.symm.trans (get?_eq_some_iff.2 he)
  unfold erase retain
  simp only [List.filter_eq_self.2 hne]

theorem permits_pos_of_check {plan : RatePlan} (h : Limits.checkRate plan = .ok ()) :
    0 < plan.permits := by
  by_contra hn
  have hzero : plan.permits = 0 := by
    rw [UInt32.lt_iff_toNat_lt] at hn
    exact UInt32.toNat_inj.1 (by simpa using hn)
  simp [Limits.checkRate, hzero] at h

namespace Local

namespace Bucket

open Quantity

variable {ν : Type} [Quantity ν] {b : Bucket ν} {plan : RatePlan} {n : UInt32} {now : Nat}

/-- What a look at an expired bucket finds: the permits of the new plan, as far as the old one can
hold them. -/
theorem filled_of_isExpired (h : b.isExpired now = true) :
    ((b.renew plan now).refill now).adopt plan now =
      ⟨atMost (atMost (count plan.permits) (count b.plan.permits)) (count plan.permits), now, now,
        plan⟩ := by
  have hrenew : b.renew plan now = { b with tokens := count plan.permits, lastRefill := now } :=
    if_pos h
  rw [hrenew]
  unfold refill adopt
  simp only [Nat.le_refl, if_true]

theorem filled_full : (((full plan now : Bucket ν).renew plan now).refill now).adopt plan now =
    full plan now := by
  have hrenew : (full plan now : Bucket ν).renew plan now = full plan now := by
    unfold renew
    rw [isExpired_full]
    rfl
  rw [hrenew]
  unfold refill adopt full
  simp only [Nat.le_refl, if_true, atMost_self]

theorem take_eq_full_of_le (h : b.isExpired now = true)
    (hle : le (count plan.permits : ν) (count b.plan.permits) = true) :
    b.take plan now = (full plan now).take plan now := by
  have hfits : atMost (count plan.permits : ν) (count b.plan.permits) = count plan.permits :=
    if_pos hle
  have hfilled : ((b.renew plan now).refill now).adopt plan now = full plan now := by
    rw [filled_of_isExpired h, hfits, atMost_self]
    rfl
  unfold take
  rw [hfilled, filled_full]

theorem take_of_filled [Counts ν] (hn : 0 < n)
    (ht : ((b.renew plan now).refill now).adopt plan now = ⟨count n, now, now, plan⟩) :
    b.take plan now = (⟨sub (count n) one, now, now, plan⟩, .taken) := by
  unfold take
  simp only [ht, (Counts.one_le_count n).2 hn, if_true]

theorem take_full [Counts ν] (hp : 0 < plan.permits) :
    (full plan now : Bucket ν).take plan now =
      (⟨sub (count plan.permits) one, now, now, plan⟩, .taken) :=
  take_of_filled hp filled_full

theorem take_of_isExpired [Counts ν] (h : b.isExpired now = true) (hb : 0 < b.plan.permits)
    (hp : 0 < plan.permits) :
    b.take plan now =
      (⟨sub (count (min plan.permits b.plan.permits)) one, now, now, plan⟩, .taken) := by
  have hmin : min (min plan.permits b.plan.permits) plan.permits =
      min plan.permits b.plan.permits := if_pos Std.min_le_left
  have hpos : 0 < min plan.permits b.plan.permits := by
    rcases Std.min_eq_or (a := plan.permits) (b := b.plan.permits) with hm | hm
    · rwa [hm]
    · rwa [hm]
  refine take_of_filled hpos ?_
  rw [filled_of_isExpired h, atMost_count, atMost_count, hmin]

/-- An expired bucket is as good as new if the new plan has no more permits than the old one, and
only then. -/
theorem take_eq_full_iff [Counts ν] (h : b.isExpired now = true) (hb : 0 < b.plan.permits)
    (hp : 0 < plan.permits) :
    b.take plan now = (full plan now).take plan now ↔ plan.permits ≤ b.plan.permits := by
  constructor
  · intro he
    rw [take_of_isExpired h hb hp, take_full hp] at he
    have htokens := congrArg (·.1.tokens) he
    have hmin : min plan.permits b.plan.permits = plan.permits := Counts.sub_one_inj _ _ htokens
    rw [← hmin]
    exact Std.min_le_right
  · exact fun hle => take_eq_full_of_le h ((Counts.le_count _ _).2 hle)

end Bucket

/-! ## Tables of buckets, one of them swept -/

section Swept

variable {ν : Type} {t t' : Table String (Bucket ν)} {now now' : Nat}

/-- `t'` is `t` without some of the buckets that have expired. -/
def Thinned (now : Nat) (t t' : Table String (Bucket ν)) : Prop :=
  ∀ name, t'.get? name = t.get? name ∨
    t'.get? name = none ∧ ∀ b, t.get? name = some b → b.isExpired now = true

namespace Thinned

theorem refl : Thinned now t t := fun _ => .inl rfl

theorem later (h : Thinned now t t') (hle : now ≤ now') : Thinned now' t t' :=
  fun name => (h name).imp_right fun ⟨hn, he⟩ =>
    ⟨hn, fun b hb => Bucket.isExpired_mono hle (he b hb)⟩

theorem insert (h : Thinned now t t') (name : String) (b : Bucket ν) :
    Thinned now (t.insert name b) (t'.insert name b) := by
  intro name'
  rw [Table.get?_insert, Table.get?_insert]
  split
  · exact .inl rfl
  · exact h name'

theorem sweep (h : Thinned now t t') : Thinned now t (t'.retain fun _ b => !b.isExpired now) := by
  intro name
  rw [Table.get?_retain]
  rcases h name with he | ⟨hn, he⟩
  · rw [he]
    cases hb : t.get? name with
    | none => exact .inl rfl
    | some b =>
      cases hx : b.isExpired now with
      | false => exact .inl (by simp [Option.filter, hx])
      | true =>
        refine .inr ⟨by simp [Option.filter, hx], fun b' hb' => ?_⟩
        cases hb'
        exact hx
  · rw [hn]
    exact .inr ⟨rfl, he⟩

end Thinned

end Swept

/-! ## The rate limiter over any numbers -/

/-- What a store has and does for callers that ask for tokens. -/
structure Meter (ν : Type) where
  buckets : Table String (Bucket ν)
  client : Ulid
  now : Nat
  /-- The next ticket. -/
  tickets : Nat
  waiting : Table Ticket (Attempt × Waiting)
  answers : List (Ticket × Outcome)

namespace Meter

inductive Move
  | call (key : String) (wait : Duration) (plan : RatePlan)
  /-- Another look of a call that sleeps, if its time has come. -/
  | look (t : Ticket)
  | drop (t : Ticket)
  /-- A sweep at the current time. -/
  | sweep
  | pass (millis : Nat)
deriving DecidableEq

variable {ν : Type} {s s' : Meter ν} {t : Ticket} {a : Attempt} {bucket name : String}
  {plan : RatePlan} {deadline : Nat} {m : Move} {moves : List Move}

def start (client : Ulid) : Meter ν := ⟨.empty, client, 0, 0, .empty, []⟩

def answer (s : Meter ν) (t : Ticket) (o : Outcome) : Meter ν :=
  { s with waiting := s.waiting.erase t, answers := s.answers ++ [(t, o)] }

/-- The name of the bucket for a key. -/
def bucketName (s : Meter ν) (key : String) (scope : RateScope) : String :=
  (Store.fresh s.client).bucketName key scope

/-- Calls that wait sleep until a token should be there. Every plan that is kept, in a bucket or by
such a call, was accepted. -/
structure Stocked (s : Meter ν) : Prop where
  buckets : ∀ name b, s.buckets.get? name = some b → Limits.checkRate b.plan = .ok ()
  waiting : ∀ t a w, s.waiting.get? t = some (a, w) → ∃ bucket plan deadline wake,
    w = .token bucket plan deadline wake ∧ Limits.checkRate plan = .ok ()

theorem Stocked.start (client : Ulid) : Stocked (start client : Meter ν) := ⟨nofun, nofun⟩

theorem Stocked.erase (h : Stocked s) (t : Ticket) (answers : List (Ticket × Outcome)) (n : Nat) :
    Stocked { s with waiting := s.waiting.erase t, answers, tickets := n } := by
  refine ⟨h.buckets, fun u a w hu => ?_⟩
  rw [Table.get?_erase] at hu
  split at hu
  · cases hu
  · exact h.waiting u a w hu

/-- The meters differ in nothing but buckets that have expired. -/
inductive Pruned (s : Meter ν) : Meter ν → Prop
  | of (buckets : Table String (Bucket ν)) : Thinned s.now s.buckets buckets →
    Pruned s { s with buckets }

variable [Quantity ν]

/-- One look at a bucket, which is created full. -/
def draw (s : Meter ν) (bucket : String) (plan : RatePlan) : Bucket ν × Take :=
  ((s.buckets.get? bucket).getD (.full plan s.now)).take plan s.now

/-- The look of one call, and what becomes of the call. -/
def visit (s : Meter ν) (t : Ticket) (a : Attempt) (bucket : String) (plan : RatePlan)
    (deadline : Nat) : Meter ν :=
  let r := s.draw bucket plan
  let s := { s with buckets := s.buckets.insert bucket r.1 }
  match r.2 with
  | .taken => s.answer t (.ok (some t))
  | .wait d =>
    match wakeFor? s.now deadline d with
    | some wake =>
      { s with waiting := s.waiting.insert t (a, .token bucket plan deadline wake) }
    | none => s.answer t (.ok none)

def step (s : Meter ν) : Move → Meter ν
  | .call key wait plan =>
    let a := Attempt.token key wait plan
    let t := s.tickets
    let s := { s with tickets := t + 1 }
    match a.check with
    | .error e => s.answer t (.error e)
    | .ok () => s.visit t a (s.bucketName key plan.scope) plan (s.now + wait.nanos)
  | .look t =>
    match s.waiting.get? t with
    | some (a, .token bucket plan deadline wake) =>
      if (Waiting.token bucket plan deadline wake).isDue s.now then
        s.visit t a bucket plan deadline
      else s
    | _ => s
  | .drop t => { s with waiting := s.waiting.erase t }
  | .sweep => { s with buckets := s.buckets.retain fun _ b => !b.isExpired s.now }
  | .pass millis => { s with now := s.now + Clock.ofMillis millis }

theorem step_pass (s : Meter ν) (millis : Nat) : ∃ now, s.now ≤ now ∧
    ∀ s' : Meter ν, s'.now = s.now → s'.step (.pass millis) = { s' with now } :=
  ⟨s.now + Clock.ofMillis millis, Nat.le_add_right .., fun _ h => h ▸ rfl⟩

def run (s : Meter ν) (moves : List Move) : Meter ν := moves.foldl step s

theorem run_concat : s.run (moves ++ [m]) = (s.run moves).step m := by
  simp [run]

/-- The bucket that a move looks at, and the plan it names. -/
def looksAt? (s : Meter ν) : Move → Option (String × RatePlan)
  | .call key wait plan =>
    match (Attempt.token key wait plan).check with
    | .ok () => some (s.bucketName key plan.scope, plan)
    | .error _ => none
  | .look t =>
    match s.waiting.get? t with
    | some (_, .token bucket plan deadline wake) =>
      if (Waiting.token bucket plan deadline wake).isDue s.now then some (bucket, plan) else none
    | _ => none
  | _ => none

/-- A look at a bucket that has expired names no more permits than the bucket could hold. -/
def suits (s : Meter ν) (m : Move) : Bool :=
  match s.looksAt? m with
  | some (bucket, plan) => (s.buckets.get? bucket).all fun b =>
      !b.isExpired s.now || Quantity.le (Quantity.count plan.permits : ν) (Quantity.count b.plan.permits)
  | none => true

/-- All moves of the run suit. -/
def allSuit (s : Meter ν) (moves : List Move) : Bool := allFit step suits s moves

/-! ## Plans that were accepted -/

theorem Stocked.visit (h : Stocked s) (hp : Limits.checkRate plan = .ok ()) :
    Stocked (s.visit t a bucket plan deadline) := by
  have hplan : (s.draw bucket plan).1.plan = plan := (Bucket.take_plan ..).1
  have hset : Stocked { s with buckets := s.buckets.insert bucket (s.draw bucket plan).1 } := by
    refine ⟨fun name b hb => ?_, h.waiting⟩
    rw [Table.get?_insert] at hb
    split at hb
    · cases hb
      rwa [hplan]
    · exact h.buckets name b hb
  unfold Meter.visit
  dsimp only
  split
  · exact hset.erase t _ _
  · split
    · refine ⟨hset.buckets, fun u a' w hu => ?_⟩
      rw [Table.get?_insert] at hu
      split at hu
      · cases hu
        exact ⟨_, _, _, _, rfl, hp⟩
      · exact h.waiting u a' w hu
    · exact hset.erase t _ _

omit [Quantity ν] in
theorem checkRate_of_check {key : String} {wait : Duration}
    (h : (Attempt.token key wait plan).check = .ok ()) : Limits.checkRate plan = .ok () := by
  unfold Attempt.check at h
  dsimp only at h
  cases hk : Limits.checkKey key with
  | error e =>
    rw [hk] at h
    cases h
  | ok u =>
    cases hw : Limits.checkWait wait with
    | error e =>
      rw [hk, hw] at h
      cases h
    | ok u =>
      rw [hk, hw] at h
      exact h

theorem Stocked.step (h : Stocked s) (m : Move) : Stocked (s.step m) := by
  cases m with
  | call key wait plan =>
    simp only [Meter.step]
    split
    · exact h.erase _ _ _
    · rename_i hc
      have hnew : Stocked { s with tickets := s.tickets + 1 } := ⟨h.buckets, h.waiting⟩
      exact hnew.visit (checkRate_of_check hc)
  | look t =>
    simp only [Meter.step]
    split
    · rename_i a bucket plan deadline wake hg
      obtain ⟨_, _, _, _, hw, hp⟩ := h.waiting t a _ hg
      cases hw
      split
      · exact h.visit hp
      · exact h
    · exact h
  | drop t => exact h.erase t _ _
  | sweep =>
    refine ⟨fun name b hb => ?_, h.waiting⟩
    rw [show (s.step .sweep).buckets = s.buckets.retain fun _ b => !b.isExpired s.now from rfl,
      Table.get?_retain, Option.filter_eq_some_iff] at hb
    exact h.buckets name b hb.1
  | pass millis =>
    obtain ⟨now, -, hpass⟩ := s.step_pass millis
    rw [hpass s rfl]
    exact ⟨h.buckets, h.waiting⟩

theorem run_stocked (client : Ulid) (moves : List Move) :
    Stocked ((start client : Meter ν).run moves) := by
  induction moves using List.reverseRecOn with
  | nil => exact .start client
  | append_singleton moves m ih =>
    rw [run_concat]
    exact ih.step m

/-! ## Two runs, one of them swept -/

theorem Pruned.sweep (h : Pruned s s') : Pruned s (s'.step .sweep) := by
  obtain ⟨buckets, h⟩ := h
  exact .of _ h.sweep

theorem Pruned.visit {buckets : Table String (Bucket ν)} (h : Thinned s.now s.buckets buckets)
    (hd : ({ s with buckets } : Meter ν).draw bucket plan = s.draw bucket plan) :
    Pruned (s.visit t a bucket plan deadline)
      (({ s with buckets } : Meter ν).visit t a bucket plan deadline) := by
  have hset := h.insert bucket (s.draw bucket plan).1
  unfold Meter.visit
  rw [hd]
  dsimp only
  split
  · exact .of _ hset
  · split
    · exact .of _ hset
    · exact .of _ hset

/-- A bucket that was swept answers like the expired one that was not. -/
theorem draw_thinned {buckets : Table String (Bucket ν)} (h : Thinned s.now s.buckets buckets)
    (hm : s.suits m = true) (hl : s.looksAt? m = some (bucket, plan)) :
    ({ s with buckets } : Meter ν).draw bucket plan = s.draw bucket plan := by
  unfold draw
  rcases h bucket with he | ⟨hn, he⟩
  · rw [he]
  · rw [hn]
    cases hb : s.buckets.get? bucket with
    | none => rfl
    | some b =>
      have hfits : Quantity.le (Quantity.count plan.permits : ν) (Quantity.count b.plan.permits) =
          true := by
        simpa [suits, hl, hb, he b hb] using hm
      exact (Bucket.take_eq_full_of_le (he b hb) hfits).symm

theorem Pruned.step (h : Pruned s s') (hs : Stocked s) (hm : s.suits m = true)
    (hsweep : m ≠ .sweep) : Pruned (s.step m) (s'.step m) := by
  obtain ⟨buckets, h⟩ := h
  cases m with
  | call key wait plan =>
    cases hc : (Attempt.token key wait plan).check with
    | error e =>
      simp only [Meter.step, hc]
      exact .of _ h
    | ok u =>
      have hlooks : s.looksAt? (.call key wait plan) = some (s.bucketName key plan.scope, plan) := by
        simp only [looksAt?, hc]
      have hthin : Thinned ({ s with tickets := s.tickets + 1 } : Meter ν).now s.buckets buckets := h
      have hdraw := draw_thinned h hm hlooks
      simp only [Meter.step, hc]
      exact .visit hthin hdraw
  | look t =>
    cases hg : s.waiting.get? t with
    | none =>
      simp only [Meter.step, hg]
      exact .of _ h
    | some x =>
      obtain ⟨a, w⟩ := x
      obtain ⟨bucket, plan, deadline, wake, rfl, -⟩ := hs.waiting t a w hg
      simp only [Meter.step, hg]
      split
      · rename_i hdue
        have hlooks : s.looksAt? (.look t) = some (bucket, plan) := by
          simp only [looksAt?, hg, hdue, if_true]
        exact .visit h (draw_thinned h hm hlooks)
      · exact .of _ h
  | drop t => exact .of _ h
  | sweep => exact absurd rfl hsweep
  | pass millis =>
    obtain ⟨now, hle, hpass⟩ := s.step_pass millis
    rw [hpass s rfl, hpass { s with buckets } rfl]
    exact .of _ (h.later hle)

theorem run_pruned (client : Ulid) (moves : List Move)
    (hm : (start client : Meter ν).allSuit (moves.filter (· ≠ .sweep)) = true) :
    Pruned ((start client : Meter ν).run (moves.filter (· ≠ .sweep)))
      ((start client).run moves) := by
  refine foldl_filter_related (.of _ .refl) (run_stocked client) ?_ ?_ hm
  · intro s s' m hkeep h
    obtain rfl : m = .sweep := by simpa using hkeep
    exact h.sweep
  · intro s s' m hkeep hs hsuits h
    exact h.step hs hsuits (of_decide_eq_true hkeep)

/-- An expired bucket answers like a new one, and is left as a new one exactly if the new plan has
no more permits than the old one. While that is so at every look, sweeps change no answer. -/
theorem run_renewed (client : Ulid) (moves : List Move) :
    (Quantity.Counts ν →
      ∀ name b, ((start client : Meter ν).run moves).buckets.get? name = some b →
        ∀ now, b.isExpired now = true → ∀ plan, Limits.checkRate plan = .ok () →
          (b.take plan now).2 = .taken ∧
            ((Bucket.full plan now : Bucket ν).take plan now).2 = .taken ∧
            (b.take plan now = (Bucket.full plan now).take plan now ↔
              plan.permits ≤ b.plan.permits)) ∧
      ((start client : Meter ν).allSuit (moves.filter (· ≠ .sweep)) = true →
        ((start client : Meter ν).run moves).answers =
            ((start client : Meter ν).run (moves.filter (· ≠ .sweep))).answers ∧
          ((start client : Meter ν).run moves).waiting =
            ((start client : Meter ν).run (moves.filter (· ≠ .sweep))).waiting) := by
  constructor
  · intro _ name b hb now he plan hp
    have hold := permits_pos_of_check ((run_stocked client moves).buckets name b hb)
    have hnew := permits_pos_of_check hp
    refine ⟨?_, ?_, Bucket.take_eq_full_iff he hold hnew⟩
    · rw [Bucket.take_of_isExpired he hold hnew]
    · rw [Bucket.take_full hnew]
  · intro hm
    have hpruned := run_pruned client moves hm
    generalize (start client : Meter ν).run moves = s' at hpruned
    cases hpruned with
    | of buckets h => exact ⟨rfl, rfl⟩

/-- An hour is the interval, and the bucket is kept for `life` milliseconds. -/
def hourly (permits : UInt32) (life : UInt64) : RatePlan :=
  ⟨.whole, permits, .ofSecs 3600, .ofMillis life⟩

/-- Two permits an hour are cut to one when the bucket has expired, and sweeps make no difference. -/
def lowered : List Move :=
  [.call "k" .zero (hourly 2 100), .pass 101, .sweep, .call "k" .zero (hourly 1 100),
    .call "k" .zero (hourly 1 100)]

theorem lowered_renewed :
    (∃ b, ((start ⟨0⟩ : Meter ℚ).run lowered).buckets.get? "k" = some b ∧
        b.take (hourly 1 100) 300_000_000 =
          (Bucket.full (hourly 1 100) 300_000_000).take (hourly 1 100) 300_000_000) ∧
      (start ⟨0⟩ : Meter ℚ).allSuit (lowered.filter (· ≠ .sweep)) = true ∧
      ((start ⟨0⟩ : Meter ℚ).run lowered).answers =
        ((start ⟨0⟩ : Meter ℚ).run (lowered.filter (· ≠ .sweep))).answers ∧
      ((start ⟨0⟩ : Meter ℚ).run lowered).answers.length = 3 := by
  have hsuit : (start ⟨0⟩ : Meter ℚ).allSuit (lowered.filter (· ≠ .sweep)) = true := by
    decide +kernel
  have hbucket : (((start ⟨0⟩ : Meter ℚ).run lowered).buckets.get? "k").map
      (fun b => (b.isExpired 300_000_000, b.plan.permits)) = some (true, 1) := by
    decide +kernel
  obtain ⟨hrenewed, hswept⟩ := run_renewed (ν := ℚ) ⟨0⟩ lowered
  obtain ⟨b, hb, hold⟩ := Option.map_eq_some_iff.1 hbucket
  obtain ⟨he, hpermits⟩ := Prod.mk.inj hold
  have hplan : Limits.checkRate (hourly 1 100) = .ok () := by decide
  have hfits : (hourly 1 100).permits ≤ b.plan.permits := by
    rw [hpermits]
    decide
  exact ⟨⟨b, hb, ((hrenewed inferInstance "k" b hb _ he _ hplan).2.2).2 hfits⟩, hsuit,
    (hswept hsuit).1, by decide +kernel⟩

/-- One permit an hour is raised to two when the bucket has expired. The second call after that is
granted only if the bucket was swept. -/
theorem raised_noticed :
    let before : List Move := [.call "k" .zero (hourly 1 100), .pass 101]
    let after : List Move := [.call "k" .zero (hourly 2 60_000), .call "k" .zero (hourly 2 60_000)]
    ((start ⟨0⟩ : Meter ℚ).run (before ++ after)).answers =
        [(0, .ok (some 0)), (1, .ok (some 1)), (2, .ok none)] ∧
      ((start ⟨0⟩ : Meter ℚ).run (before ++ .sweep :: after)).answers =
        [(0, .ok (some 0)), (1, .ok (some 1)), (2, .ok (some 2))] := by
  decide +kernel

end Meter

/-! ## Traffic for tokens -/

namespace Traffic

/-- What callers for tokens see of the traffic at a store. -/
def meter (s : Traffic) : Meter Float :=
  ⟨s.store.buckets, s.store.client, s.now, s.tickets, s.waiting, answersOf s.log⟩

/-- What a move of the meter is at the store, at the time `now`. -/
def moveAt (now : Nat) : Meter.Move → Move
  | .call key wait plan => .begin (.token key wait plan)
  | .look t => .look t
  | .drop t => .drop t
  | .sweep => .sweep now
  | .pass millis => .pass millis

/-- A run of calls for tokens, with sweeps at the time. -/
def runMeter (s : Traffic) (moves : List Meter.Move) : Traffic :=
  moves.foldl (fun s m => s.step (moveAt s.now m)) s

variable {s : Traffic} {t : Ticket} {a : Attempt} {w : Waiting} {bucket : String} {plan : RatePlan}
  {deadline wake : Nat}

theorem meter_settle_done (o : Outcome) : (s.settle t a (.done o)).meter = s.meter.answer t o := by
  unfold meter settle Meter.answer
  dsimp only
  rw [answersOf_append]
  rfl

/-- One look at a bucket is that of the meter. -/
theorem meter_tryToken :
    (({ s with store := (s.store.tryToken t s.now bucket plan deadline).1 } : Traffic).settle t a
      (s.store.tryToken t s.now bucket plan deadline).2).meter =
      s.meter.visit t a bucket plan deadline := by
  have hdraw : s.store.takeToken bucket plan s.now =
      ({ s.store with buckets := s.store.buckets.insert bucket (s.meter.draw bucket plan).1 },
        (s.meter.draw bucket plan).2) := rfl
  unfold Store.tryToken Meter.visit
  rw [hdraw]
  generalize s.meter.draw bucket plan = r
  obtain ⟨b, x⟩ := r
  cases x with
  | taken => exact meter_settle_done _
  | wait d =>
    have hnow : s.meter.now = s.now := rfl
    dsimp only
    rw [hnow]
    cases wakeFor? s.now deadline d with
    | some wake => rfl
    | none => exact meter_settle_done _

theorem meter_bucketName (key : String) (scope : RateScope) :
    s.store.bucketName key scope = s.meter.bucketName key scope := by
  cases scope <;> rfl

theorem meter_begin (key : String) (wait : Duration) :
    (s.begin (.token key wait plan)).meter = s.meter.step (.call key wait plan) := by
  have harrive : ∀ st, (s.arrive (.token key wait plan) st) =
      { s with
        store := st
        tickets := s.tickets + 1
        log := s.log ++ [.arrived s.tickets (.token key wait plan)] } := fun _ => rfl
  have hmeter : ({ s with
      tickets := s.tickets + 1
      log := s.log ++ [.arrived s.tickets (.token key wait plan)] } : Traffic).meter =
        { s.meter with tickets := s.tickets + 1 } := by
    unfold meter
    rw [answersOf_append]
    exact congrArg (Meter.mk _ _ _ _ _) (List.append_nil _)
  unfold Traffic.begin Store.begin Meter.step
  dsimp only
  cases (Attempt.token key wait plan).check with
  | error e =>
    dsimp only
    rw [harrive, meter_settle_done]
    exact congrArg (Meter.answer · s.tickets (.error e)) hmeter
  | ok u =>
    dsimp only [Store.start]
    rw [harrive, meter_bucketName]
    exact meter_tryToken.trans (congrArg (Meter.visit · ..) hmeter)

theorem meter_look (hg : s.waiting.get? t = some (a, .token bucket plan deadline wake)) :
    (s.look t a (.token bucket plan deadline wake)).meter = s.meter.step (.look t) := by
  have hvisit : ∀ st, (s.visit t (.token bucket plan deadline wake) st []).meter =
      { s.meter with buckets := st.buckets, client := st.client } := by
    intro st
    unfold meter
    exact congrArg (fun log => Meter.mk _ _ _ _ _ (answersOf log)) (List.append_nil _)
  have hwaiting : s.meter.waiting.get? t = some (a, .token bucket plan deadline wake) := hg
  have hnow : s.meter.now = s.now := rfl
  unfold Traffic.look Store.resume Meter.step
  simp only [hwaiting, hnow]
  split
  · have htry := @meter_tryToken (s.visit t (.token bucket plan deadline wake) s.store []) t a bucket
      plan deadline
    rw [hvisit] at htry
    exact htry
  · -- The call sleeps on, as it did.
    show Meter.mk _ _ _ _ (s.waiting.insert t _) (answersOf (s.log ++ [])) = _
    rw [Table.insert_of_get? hg, List.append_nil]
    rfl

theorem meter_step (hs : s.meter.Stocked) (m : Meter.Move) :
    (s.step (moveAt s.now m)).meter = s.meter.step m := by
  cases m with
  | call key wait plan => exact meter_begin key wait
  | look t =>
    cases hg : s.waiting.get? t with
    | none =>
      have hmeter : s.meter.waiting.get? t = none := hg
      simp only [moveAt, Traffic.step, Meter.step, hg, hmeter]
    | some x =>
      obtain ⟨a, w⟩ := x
      obtain ⟨bucket, plan, deadline, wake, rfl, -⟩ := hs.waiting t a w hg
      simp only [moveAt, Traffic.step, hg]
      exact meter_look hg
  | drop t =>
    cases hg : s.waiting.get? t with
    | none =>
      simp only [moveAt, Traffic.step, hg]
      exact congrArg (fun waiting => { s.meter with waiting }) (Table.erase_of_get? hg).symm
    | some x =>
      obtain ⟨a, w⟩ := x
      obtain ⟨bucket, plan, deadline, wake, rfl, -⟩ := hs.waiting t a w hg
      simp only [moveAt, Traffic.step, hg]
      show Meter.mk _ _ _ _ _ (answersOf (s.log ++ [.dropped t])) = _
      rw [answersOf_append]
      exact congrArg (Meter.mk _ _ _ _ _) (List.append_nil _)
  | sweep => rfl
  | pass millis =>
    have hpass : ∀ now, ({ s with now } : Traffic).meter = { s.meter with now } := fun _ => rfl
    exact hpass _

theorem meter_run (client : Ulid) (moves : List Meter.Move) :
    ((Traffic.start client).runMeter moves).meter = (Meter.start client).run moves := by
  induction moves using List.reverseRecOn with
  | nil => rfl
  | append_singleton moves m ih =>
    have hstep : (Traffic.start client).runMeter (moves ++ [m]) =
        ((Traffic.start client).runMeter moves).step
          (moveAt ((Traffic.start client).runMeter moves).now m) := by
      simp [runMeter]
    rw [hstep, Meter.run_concat, ← ih]
    exact meter_step (ih ▸ Meter.run_stocked client moves) m

/-- Callers do not notice sweeps, if no look at an expired bucket names more permits than it could
hold. -/
theorem runMeter_unnoticed (client : Ulid) (moves : List Meter.Move)
    (hm : (Meter.start client : Meter Float).allSuit (moves.filter (· ≠ .sweep)) = true) :
    answersOf ((Traffic.start client).runMeter moves).log =
      answersOf ((Traffic.start client).runMeter (moves.filter (· ≠ .sweep))).log := by
  have hswept := congrArg Meter.answers (meter_run client moves)
  have hplain := congrArg Meter.answers (meter_run client (moves.filter (· ≠ .sweep)))
  have hpruned := Meter.run_pruned client moves hm
  rw [show answersOf _ = _ from hswept, show answersOf _ = _ from hplain]
  generalize (Meter.start client : Meter Float).run moves = s at hpruned
  cases hpruned with
  | of buckets h => rfl

end Traffic

end Local

end Turnstile
