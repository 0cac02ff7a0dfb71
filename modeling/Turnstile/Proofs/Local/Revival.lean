import Turnstile.Proofs.Local.Pruned
import Turnstile.Proofs.Local.Upkeep

/-!
# Pools that have expired

A look at a pool that has expired finds a new one. A release does not ask whether the pool has
expired: it gives back the latest acquisition and touches the pool, so that the acquisitions before
that one count as out again. The next look then finds a new pool exactly if nothing was out or the
release filled the pool (`Pool.take_late_iff`). While no pool that has expired is given back to with
two acquisitions out, nobody notices sweeps (`Traffic.run_lapsed`).
-/

namespace Turnstile.Local

namespace Pool

variable {p : Pool} {plan : PoolPlan} {n now later : Nat}

/-- The answer depends on what is available once the plan is adopted. -/
theorem take_answer : (p.take plan n now).2 =
    if plan.capacity.toNat < n then .impossible
    else if n ≤ (p.reshape plan now).available then .granted else .short := by
  unfold take
  dsimp only
  rw [reshape_capacity]
  split
  · rfl
  · split <;> rfl

theorem take_full_answer : ((full plan now).take plan n now).2 =
    if plan.capacity.toNat < n then .impossible else .granted := by
  rw [take_answer, reshape_full]
  split
  · rfl
  · rename_i hn
    exact if_pos (Nat.not_lt.1 hn)

theorem take_answer_of_available (h : (p.reshape plan now).available = plan.capacity.toNat) :
    (p.take plan n now).2 = ((full plan now).take plan n now).2 := by
  rw [take_answer, take_full_answer, h]
  split
  · rfl
  · rename_i hn
    exact if_pos (Nat.not_lt.1 hn)

theorem available_reshape (h : p.isExpired now = true ∨ p.capacity ≤ p.available) :
    (p.reshape plan now).available = plan.capacity.toNat := by
  unfold reshape
  dsimp only
  split
  · rfl
  · rename_i hx
    have hle := h.resolve_left hx
    dsimp only
    omega

theorem isExpired_giveBack (h : p.outstanding ≠ []) : (p.giveBack now).1.isExpired now = false := by
  have htouched : (p.giveBack now).1.lastTouched = now := by
    unfold giveBack
    split
    · contradiction
    · rfl
  refine decide_eq_false fun hlt => ?_
  rw [htouched] at hlt
  have hpos : _ < (Clock.since now now).nanos := hlt
  rw [since_self] at hpos
  exact Nat.not_lt_zero _ hpos

/-- After a late release the pool is as good as a new one if nothing was out or the release filled
it, and only then. -/
theorem take_late_iff (h : p.isExpired now = true) :
    (∀ later plan n, now ≤ later →
      ((p.giveBack now).1.take plan n later).2 = ((full plan later).take plan n later).2) ↔
      p.outstanding = [] ∨ p.capacity ≤ (p.giveBack now).1.available := by
  constructor
  · intro hall
    by_contra hnot
    obtain ⟨hout, havail⟩ := not_or.1 hnot
    -- A pool that is not full has nothing available once its capacity is one.
    have hone := hall now ⟨1, .zero⟩ 1 (Nat.le_refl now)
    have hzero : ((p.giveBack now).1.reshape ⟨1, .zero⟩ now).available = 0 := by
      unfold reshape
      rw [isExpired_giveBack hout, giveBack_capacity]
      simp only [Bool.false_eq_true, if_false, UInt32.toNat_one]
      omega
    rw [take_answer, take_full_answer, hzero] at hone
    exact absurd hone (by decide)
  · rintro (hout | hle) later plan n hlater
    · rw [giveBack_nil hout]
      exact take_answer_of_available (available_reshape (.inl (isExpired_mono hlater h)))
    · refine take_answer_of_available (available_reshape (.inr ?_))
      rwa [giveBack_capacity]

/-- One release fills a pool that at most one acquisition is out of. -/
theorem Covered.isFull_giveBack (h : p.Covered) (hl : p.outstanding.length ≤ 1) :
    (p.giveBack now).1.IsFull := by
  refine (covered_giveBack h).isFull ?_
  rw [giveBack_outstanding]
  exact List.eq_nil_of_length_eq_zero (by rw [List.length_tail]; omega)

end Pool

namespace Store.Pruned

variable {s s' : Store} {t : Ticket} {now : Nat} {key : String} {plan : PoolPlan}

theorem beginPermits {demand : PoolDemand} (h : Pruned now s s') :
    Pruned now (s.begin t now (.permits key plan demand)).1
        (s'.begin t now (.permits key plan demand)).1 ∧
      (s'.begin t now (.permits key plan demand)).2 =
        (s.begin t now (.permits key plan demand)).2 := by
  unfold Store.begin
  split
  · exact ⟨h, rfl⟩
  · exact h.tryPermits

theorem out (h : Pruned now s s') (key : String) :
    s'.out key now = s.out key now := by
  unfold Store.out
  rcases h.pools key with he | ⟨hn, hspent⟩
  · exact ofPool_of_get?_eq he
  · rw [ofPool_of_none hn]
    cases hp : s.pools.get? key with
    | none => exact (ofPool_of_none hp).symm
    | some p =>
      have hout : p.out now = 0 := by
        unfold Pool.out
        rcases (hspent p hp).idle with hx | hfull
        · exact if_pos hx
        · rw [hfull.1, List.sum_nil, ite_self]
      exact ((ofPool_of_get? hp).trans hout).symm

end Store.Pruned

namespace Traffic

/-- What callers for permits do, and sweeps at the time. -/
inductive Loan
  | acquire (key : String) (plan : PoolPlan) (demand : PoolDemand)
  | look (t : Ticket)
  | drop (t : Ticket)
  | release (key : String)
  | sweep
  | pass (millis : Nat)
deriving DecidableEq

/-- The move at the time `now`. -/
def Loan.moveAt (now : Nat) : Loan → Move
  | acquire key plan demand => .begin (.permits key plan demand)
  | look t => .look t
  | drop t => .drop t
  | release key => .giveBack key
  | sweep => .sweep now
  | pass millis => .pass millis

def lend (s : Traffic) (m : Loan) : Traffic := s.step (m.moveAt s.now)

def runLoans (s : Traffic) (loans : List Loan) : Traffic := loans.foldl lend s

/-- At most one acquisition is out of a pool that has expired and is given back to, unless
somebody waits there. -/
def timely (s : Traffic) : Loan → Bool
  | .release key => (s.store.pools.get? key).all fun p =>
      !p.isExpired s.now || p.isAwaited || p.outstanding.length ≤ 1
  | _ => true

/-- All releases of the run are timely. -/
def allTimely (s : Traffic) (loans : List Loan) : Bool := allFit lend timely s loans

variable {s s' : Traffic} {store st st' : Store} {t : Ticket} {a : Attempt} {w : Waiting}
  {p : Progress} {key : String} {plan : PoolPlan} {n deadline : Nat} {m : Loan} {loans : List Loan}

theorem runLoans_concat : s.runLoans (loans ++ [m]) = (s.runLoans loans).lend m := by
  simp [runLoans]

theorem runLoans_eq_run (client : Ulid) (loans : List Loan) :
    ∃ moves, (start client).runLoans loans = (start client).run moves := by
  induction loans using List.reverseRecOn with
  | nil => exact ⟨[], rfl⟩
  | append_singleton loans m ih =>
    obtain ⟨moves, he⟩ := ih
    refine ⟨moves ++ [m.moveAt ((start client).runLoans loans).now], ?_⟩
    rw [runLoans_concat, run_concat, ← he]
    rfl

/-! ## Only calls for permits wait -/

/-- All calls that wait are calls for permits. -/
def Borrowing (s : Traffic) : Prop :=
  ∀ t a w, s.waiting.get? t = some (a, w) → ∃ key plan n deadline, w = .permits key plan n deadline

namespace Borrowing

theorem start (client : Ulid) : Borrowing (start client) := nofun

theorem settle (h : Borrowing s)
    (hp : ∀ w, p = .waiting w → ∃ key plan n deadline, w = .permits key plan n deadline) :
    Borrowing (s.settle t a p) := by
  intro u a' w hu
  rcases settle_get? hu with hold | ⟨-, -, hnew⟩
  · exact h u a' w hold
  · exact hp w hnew

theorem lend (h : Borrowing s) (m : Loan) : Borrowing (s.lend m) := by
  cases m with
  | acquire key plan demand =>
    have harrive : ∀ st, Borrowing (s.arrive (.permits key plan demand) st) := fun _ => h
    refine (harrive _).settle fun w hw => ?_
    unfold Store.begin at hw
    split at hw
    · cases hw
    · exact ⟨_, _, _, _, Store.tryPermits_waiting hw⟩
  | look t =>
    show Borrowing (s.step (.look t))
    unfold Traffic.step
    dsimp only
    split
    · rename_i a w hg
      obtain ⟨key, plan, n, deadline, rfl⟩ := h t a w hg
      have hvisit : ∀ st woken, Borrowing (s.visit t (.permits key plan n deadline) st woken) :=
        fun _ _ => h
      exact (hvisit _ _).settle fun w hw => ⟨_, _, _, _, Store.resume_permits_waiting hw⟩
    · exact h
  | drop t =>
    show Borrowing (s.step (.drop t))
    unfold Traffic.step
    dsimp only
    split
    · intro u a' w hu
      change (s.waiting.erase t).get? u = _ at hu
      rw [Table.get?_erase] at hu
      split at hu
      · cases hu
      · exact h u a' w hu
    · exact h
  | release key => exact h
  | sweep => exact h
  | pass millis =>
    obtain ⟨now, -, hpass⟩ := s.step_pass millis
    have hlend : s.lend (.pass millis) = { s with now } := hpass s rfl
    rw [hlend]
    exact h

theorem run (client : Ulid) (loans : List Loan) :
    Borrowing ((Traffic.start client).runLoans loans) := by
  induction loans using List.reverseRecOn with
  | nil => exact .start client
  | append_singleton loans m ih =>
    rw [runLoans_concat]
    exact ih.lend m

end Borrowing

/-- What holds in every run of calls for permits. -/
structure Lending (s : Traffic) : Prop where
  borrowing : Borrowing s
  attended : Attended s.waiting s.store
  kept : Kept s

theorem Lending.run (client : Ulid) (loans : List Loan) :
    Lending ((start client).runLoans loans) := by
  obtain ⟨moves, he⟩ := runLoans_eq_run client loans
  exact ⟨.run client loans, he ▸ run_attended client moves, he ▸ run_kept client moves⟩

/-! ## Two runs, one of them swept -/

/-- `s'` is `s`, but its store may lack entries that make no difference. -/
inductive Swept (s : Traffic) : Traffic → Prop
  | of (store : Store) (h : s.store.Pruned s.now store) : Swept s { s with store }

namespace Swept

theorem sweep (h : Swept s s') : Swept s (s'.lend .sweep) := by
  obtain ⟨store, h⟩ := h
  exact .of _ h.sweep

theorem settle (h : Swept s s') : Swept (s.settle t a p) (s'.settle t a p) := by
  obtain ⟨store, h⟩ := h
  cases p with
  | done o => exact .of store h
  | waiting w => exact .of store h

theorem firstAsk (h : s.store.Pruned s.now store) (a : Attempt) :
    ({ s with store } : Traffic).firstAsk a = s.firstAsk a := by
  cases a with
  | permits key plan demand =>
    unfold Traffic.firstAsk
    dsimp only
    rw [h.out]
  | _ => rfl

theorem nextAsk (h : s.store.Pruned s.now store) (ht : t ∈ s.store.callers key) :
    ({ s with store } : Traffic).nextAsk t (.permits key plan n deadline) =
      s.nextAsk t (.permits key plan n deadline) := by
  obtain ⟨p, hp, hp'⟩ := h.get?_of_mem ht
  unfold Traffic.nextAsk
  dsimp only
  rw [hp, hp', h.out]

theorem arrive (h : s.store.Pruned s.now store) (hst : st.Pruned s.now st') (a : Attempt) :
    Swept (s.arrive a st) (({ s with store } : Traffic).arrive a st') := by
  unfold Traffic.arrive
  rw [firstAsk h]
  exact .of st' hst

theorem visit (h : s.store.Pruned s.now store) (ht : t ∈ s.store.callers key)
    (hst : st.Pruned s.now st') (woken : List Ticket) :
    Swept (s.visit t (.permits key plan n deadline) st woken)
      (({ s with store } : Traffic).visit t (.permits key plan n deadline) st' woken) := by
  unfold Traffic.visit
  rw [nextAsk h ht]
  exact .of st' hst

theorem acquire (h : Swept s s') (plan : PoolPlan) (demand : PoolDemand) :
    Swept (s.begin (.permits key plan demand)) (s'.begin (.permits key plan demand)) := by
  obtain ⟨store, h⟩ := h
  obtain ⟨hst, he⟩ := @Store.Pruned.beginPermits _ _ s.tickets _ key plan demand h
  unfold Traffic.begin
  dsimp only
  rw [he]
  exact (arrive h hst _).settle

theorem look (h : Swept s s') (ha : Attended s.waiting s.store)
    (hg : s.waiting.get? t = some (a, .permits key plan n deadline)) :
    Swept (s.look t a (.permits key plan n deadline))
      (s'.look t a (.permits key plan n deadline)) := by
  obtain ⟨store, h⟩ := h
  have ht : t ∈ s.store.callers key := (ha.mem_of_get? hg key).2 rfl
  obtain ⟨hst, he⟩ := @Store.Pruned.resumePermits _ _ t _ n deadline key plan h ht
  unfold Traffic.look
  dsimp only
  rw [he]
  exact (visit h ht hst _).settle

theorem drop (h : Swept s s') (ha : Attended s.waiting s.store)
    (hg : s.waiting.get? t = some (a, w)) : Swept (s.drop t w) (s'.drop t w) := by
  obtain ⟨store, h⟩ := h
  obtain ⟨hst, he⟩ := @Store.Pruned.cancel _ _ t _ w h fun key => (ha.mem_of_get? hg key).2
  unfold Traffic.drop
  dsimp only
  rw [he]
  exact .of _ hst

theorem release (h : Swept s s') (hk : Kept s) (hm : s.timely (.release key) = true) :
    Swept (s.giveBack key) (s'.giveBack key) := by
  obtain ⟨store, h⟩ := h
  have hfull : ∀ p, s.store.pools.get? key = some p → p.IsSpent s.now →
      (p.giveBack s.now).1.IsFull := by
    intro p hp hspent
    refine (hk.covered key p hp).isFull_giveBack ?_
    rcases hspent.idle with hx | hfull
    · have hunawaited : p.isAwaited = false := by
        rw [← Bool.not_eq_true, Pool.isAwaited_iff, not_not]
        exact hspent.callers
      simpa [timely, hp, hx, hunawaited] using hm
    · simp [hfull.1]
  obtain ⟨hst, he⟩ := h.giveBack_of_isFull hfull
  unfold Traffic.giveBack
  dsimp only
  rw [he]
  exact .of _ hst

theorem lend (h : Swept s s') (hs : Lending s) (hm : s.timely m = true) (hsweep : m ≠ .sweep) :
    Swept (s.lend m) (s'.lend m) := by
  have hwaiting : s'.waiting = s.waiting := by
    obtain ⟨store, -⟩ := h
    rfl
  have hnow : s'.now = s.now := by
    obtain ⟨store, -⟩ := h
    rfl
  unfold Traffic.lend
  rw [hnow]
  cases m with
  | acquire key plan demand => exact h.acquire plan demand
  | look t =>
    simp only [Loan.moveAt, Traffic.step, hwaiting]
    split
    · rename_i a w hg
      obtain ⟨key, plan, n, deadline, rfl⟩ := hs.borrowing t a w hg
      exact h.look hs.attended hg
    · exact h
  | drop t =>
    simp only [Loan.moveAt, Traffic.step, hwaiting]
    split
    · rename_i a w hg
      exact h.drop hs.attended hg
    · exact h
  | release key => exact h.release hs.kept hm
  | sweep => exact absurd rfl hsweep
  | pass millis =>
    obtain ⟨now, hle, hpass⟩ := s.step_pass millis
    show Swept (s.step (.pass millis)) (s'.step (.pass millis))
    rw [hpass s rfl, hpass s' hnow]
    obtain ⟨store, h⟩ := h
    exact .of _ (h.later hle)

theorem run (client : Ulid) (loans : List Loan)
    (hm : (start client).allTimely (loans.filter (· ≠ .sweep)) = true) :
    Swept ((start client).runLoans (loans.filter (· ≠ .sweep)))
      ((start client).runLoans loans) := by
  refine foldl_filter_related (.of _ .refl) (Lending.run client) ?_ ?_ hm
  · intro s s' m hkeep h
    obtain rfl : m = .sweep := by simpa using hkeep
    exact h.sweep
  · intro s s' m hkeep hs htimely h
    exact h.lend hs htimely (of_decide_eq_true hkeep)

end Swept

/-- A pool that has expired answers as a new one, and after a late release exactly if nothing was
out or the release filled it. While at most one acquisition is out at every late release, sweeps
change nothing that callers see. -/
theorem run_lapsed (client : Ulid) (loans : List Loan) :
    (∀ key p, ((start client).runLoans loans).store.pools.get? key = some p →
      ∀ now, p.isExpired now = true →
        (∀ plan n, (p.take plan n now).2 = ((Pool.full plan now).take plan n now).2 ∧
          (p.callers = [] → p.take plan n now = (Pool.full plan now).take plan n now)) ∧
        ((∀ later plan n, now ≤ later →
            ((p.giveBack now).1.take plan n later).2 =
              ((Pool.full plan later).take plan n later).2) ↔
          p.outstanding = [] ∨ p.capacity ≤ (p.giveBack now).1.available)) ∧
      ((start client).allTimely (loans.filter (· ≠ .sweep)) = true →
        ((start client).runLoans loans).log =
            ((start client).runLoans (loans.filter (· ≠ .sweep))).log ∧
          ((start client).runLoans loans).waiting =
            ((start client).runLoans (loans.filter (· ≠ .sweep))).waiting ∧
          ((start client).runLoans loans).woken =
            ((start client).runLoans (loans.filter (· ≠ .sweep))).woken) := by
  constructor
  · intro key p _ now hx
    refine ⟨fun plan n => ⟨?_, fun hcallers => ?_⟩, Pool.take_late_iff hx⟩
    · exact Pool.take_answer_of_available (Pool.available_reshape (.inl hx))
    · have hspent : p.IsSpent now := ⟨hcallers, .inl hx⟩
      exact hspent.take
  · intro hm
    have hswept := Swept.run client loans hm
    generalize (start client).runLoans loans = s' at hswept
    cases hswept with
    | of store h => exact ⟨rfl, rfl, rfl⟩

/-- A pool of two that is kept for a tenth of a second. -/
def pair : PoolPlan := ⟨2, .ofMillis 100⟩

/-- The one acquisition comes back when its pool has expired. -/
def lateReturn : List Loan :=
  [.acquire "k" pair ⟨1, .zero⟩, .pass 101, .sweep, .release "k", .acquire "k" pair ⟨2, .zero⟩]

theorem lateReturn_lapsed :
    (∃ p, ((start ⟨0⟩).runLoans lateReturn).store.pools.get? "k" = some p ∧
        ((p.giveBack 300_000_000).1.take pair 2 300_000_000).2 =
          ((Pool.full pair 300_000_000).take pair 2 300_000_000).2) ∧
      (start ⟨0⟩).allTimely (lateReturn.filter (· ≠ .sweep)) = true ∧
      ((start ⟨0⟩).runLoans lateReturn).log =
        ((start ⟨0⟩).runLoans (lateReturn.filter (· ≠ .sweep))).log ∧
      answersOf ((start ⟨0⟩).runLoans lateReturn).log = [(0, .ok (some 0)), (1, .ok (some 1))] := by
  have htimely : (start ⟨0⟩).allTimely (lateReturn.filter (· ≠ .sweep)) = true := by
    decide +kernel
  have hpool : (((start ⟨0⟩).runLoans lateReturn).store.pools.get? "k").map (fun p =>
      (p.isExpired 300_000_000, p.capacity, (p.giveBack 300_000_000).1.available)) =
        some (true, 2, 2) := by
    decide +kernel
  obtain ⟨hlapsed, hswept⟩ := run_lapsed ⟨0⟩ lateReturn
  obtain ⟨p, hp, hold⟩ := Option.map_eq_some_iff.1 hpool
  obtain ⟨hx, hrest⟩ := Prod.mk.inj hold
  obtain ⟨hcap, havail⟩ := Prod.mk.inj hrest
  have hfilled : p.capacity ≤ (p.giveBack 300_000_000).1.available := by
    rw [hcap, havail]
  exact ⟨⟨p, hp, ((hlapsed "k" p hp _ hx).2.2 (.inr hfilled)) _ pair 2 (Nat.le_refl _)⟩, htimely,
    (hswept htimely).1, by decide +kernel⟩

/-- One of two acquisitions comes back when their pool has expired, and the other one is out again.
Both permits are there for the next caller only if the pool was swept. -/
theorem revived_noticed :
    let before : List Loan :=
      [.acquire "k" pair ⟨1, .zero⟩, .acquire "k" pair ⟨1, .zero⟩, .pass 101]
    let after : List Loan := [.release "k", .acquire "k" pair ⟨2, .zero⟩]
    answersOf ((start ⟨0⟩).runLoans (before ++ after)).log =
        [(0, .ok (some 0)), (1, .ok (some 1)), (2, .ok none)] ∧
      answersOf ((start ⟨0⟩).runLoans (before ++ .sweep :: after)).log =
        [(0, .ok (some 0)), (1, .ok (some 1)), (2, .ok (some 2))] := by
  decide +kernel

end Traffic

end Turnstile.Local
