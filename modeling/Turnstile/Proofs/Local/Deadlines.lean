import Turnstile.Proofs.Local.Pruned

/-!
# Waits come to an end

A call that may wait for some time is over once its time is and everybody who can run has run,
whatever other callers do (`Traffic.run_bounded`). Its timer fires by its deadline, and when it has
fired a look ends the call, with one exception: a call for a token tries again and may sleep on.
But then the bucket asked for at least a millisecond and the deadline allows it, so that the tries
of one call are a millisecond apart and not more than fit its wait.

A look at a call never makes another one runnable, so that after one look at each of them, in any
order, nobody can run.
-/

namespace Turnstile.Local

/-- How long an attempt may take. -/
def Attempt.wait : Attempt → Duration
  | token _ wait _ => wait
  | lock _ _ wait => wait
  | permits _ _ demand => demand.wait
  | named _ wait => wait

def Attempt.wantsToken : Attempt → Bool
  | token .. => true
  | _ => false

theorem tick_mono {now later : Nat} (h : now ≤ later) : Clock.tick now ≤ Clock.tick later := by
  unfold Clock.tick
  omega

namespace Waiting

variable {w : Waiting} {now : Nat}

/-- The end of the time that the attempt may take. -/
def deadline : Waiting → Nat
  | token _ _ deadline _ => deadline
  | turn _ _ deadline => deadline
  | permits _ _ _ deadline => deadline

def wantsToken : Waiting → Bool
  | token .. => true
  | _ => false

theorem isDue_iff : w.isDue now = true ↔ Clock.tick w.due ≤ now := decide_eq_true_iff

theorem isDue_eq_false : w.isDue now = false ↔ now < Clock.tick w.due := by
  rw [← Bool.not_eq_true, isDue_iff, Nat.not_le]

theorem isDue_eq_false_of_lt (h : now < w.due) : w.isDue now = false :=
  isDue_eq_false.2 (Nat.lt_of_lt_of_le h (Clock.le_tick _))

/-- After a look at `now` the attempt waits for its timer, which fires by the deadline, and for a
token it waits a millisecond at least. -/
structure Sleeps (now : Nat) (w : Waiting) : Prop where
  notDue : w.isDue now = false
  inTime : w.due ≤ w.deadline
  spaced : w.wantsToken = true → now + 1_000_000 ≤ w.due

theorem Sleeps.turn {name : String} {owner : Option Ulid} {deadline : Nat}
    (h : (turn name owner deadline).isDue now = false) : (turn name owner deadline).Sleeps now :=
  ⟨h, Nat.le_refl _, nofun⟩

end Waiting

/-! ## One look -/

namespace Bucket

variable {ν : Type} [Quantity ν] {b : Bucket ν} {plan : RatePlan} {now : Nat} {d : Duration}

theorem le_waitFor (missing : ν) : 1_000_000 ≤ (waitFor plan missing).nanos := by
  have hmax : ∀ d : Duration, 1_000_000 ≤ (max d (.ofMillis 1)).nanos := by
    intro d
    show 1_000_000 ≤ (if d ≤ .ofMillis 1 then Duration.ofMillis 1 else d).nanos
    split
    · exact Nat.le_refl _
    · rename_i h
      exact Nat.le_of_lt (Nat.not_le.1 h)
  exact hmax _

theorem le_wait_take (h : (b.take plan now).2 = .wait d) : 1_000_000 ≤ d.nanos := by
  unfold take at h
  dsimp only at h
  split at h
  · cases h
  · cases h
    exact le_waitFor _

end Bucket

theorem wakeFor?_eq_some {now deadline wake : Nat} {d : Duration} (hd : 1_000_000 ≤ d.nanos)
    (h : wakeFor? now deadline d = some wake) : now + 1_000_000 ≤ wake ∧ wake ≤ deadline := by
  unfold wakeFor? at h
  split at h
  · cases h
  · rename_i hle
    have hle : d.nanos ≤ (Clock.since deadline now).nanos := Nat.not_lt.1 hle
    have hwake : now + d.nanos = wake := Option.some.inj h
    simp only [Clock.since, Duration.ofNanos] at hle
    omega

namespace Store

variable {s : Store} {t : Ticket} {now deadline n : Nat} {a : Attempt} {w w' : Waiting}
  {name key bucket : String} {owner : Option Ulid} {rate : RatePlan} {plan : PoolPlan}

theorem tryToken_waiting (h : (s.tryToken t now bucket rate deadline).2 = .waiting w) :
    w.Sleeps now ∧ w.deadline = deadline ∧ w.wantsToken = true := by
  unfold tryToken at h
  split at h
  · cases h
  · rename_i s' d htake
    have hd : 1_000_000 ≤ d.nanos := Bucket.le_wait_take (congrArg Prod.snd htake)
    split at h
    · rename_i wake hwake
      obtain ⟨hspaced, hle⟩ := wakeFor?_eq_some hd hwake
      cases h
      exact ⟨⟨Waiting.isDue_eq_false_of_lt (Nat.lt_of_lt_of_le (by omega) hspaced), hle,
        fun _ => hspaced⟩, rfl, rfl⟩
    · cases h

theorem tryPermits_sleeps (h : (s.tryPermits t now key plan n deadline).2 = .waiting w) :
    w.Sleeps now ∧ w.deadline = deadline ∧ w.wantsToken = false := by
  have hw : w = .permits key plan n deadline := tryPermits_waiting h
  subst hw
  refine ⟨⟨?_, Nat.le_refl _, nofun⟩, rfl, rfl⟩
  unfold tryPermits at h
  split at h
  · cases h
  · cases h
  · split at h
    · cases h
    · rename_i hnot
      exact Waiting.isDue_eq_false.2 (Nat.not_le.1 hnot)

/-- An attempt that goes on waiting after its first try does so within its time. -/
theorem start_sleeps (h : (s.start t now a).2 = .waiting w) :
    w.Sleeps now ∧ w.deadline = now + a.wait.nanos ∧ w.wantsToken = a.wantsToken := by
  cases a with
  | token => exact tryToken_waiting h
  | permits => exact tryPermits_sleeps h
  | lock key owner wait =>
    simp only [start, tryLatch] at h
    split at h
    · split at h <;> cases h
    · rename_i hwait
      have hpos : 0 < wait.nanos := Nat.pos_of_ne_zero fun hz => hwait (by simp [Duration.isZero, hz])
      rw [enterLatch_waiting h]
      refine ⟨.turn (Waiting.isDue_eq_false_of_lt ?_), rfl, rfl⟩
      exact Nat.lt_add_of_pos_right hpos
  | named key wait =>
    simp only [start] at h
    split at h
    · rename_i s' w' henter
      have hw' : w' = .turn (lockName key) none (now + wait.nanos) :=
        enterLatch_waiting (congrArg Prod.snd henter)
      split at h
      · cases h
      · rename_i hdue
        cases h
        subst hw'
        exact ⟨.turn (by simpa using hdue), rfl, rfl⟩
    · rename_i hno
      exact (hno _ w (Prod.ext rfl h)).elim

/-- An attempt that goes on waiting after another look is not due any more. It waits as before, or
it was due for another try at a bucket. -/
theorem resume_waiting (h : (s.resume t now w).2.2 = .waiting w') :
    w'.isDue now = false ∧
      (w' = w ∨ w.wantsToken = true ∧ w.isDue now = true ∧ w'.Sleeps now ∧
        w'.deadline = w.deadline ∧ w'.wantsToken = true) := by
  cases w with
  | token bucket rate deadline wake =>
    simp only [resume] at h
    split at h
    · rename_i hdue
      obtain ⟨hsleeps, hdeadline, hsleep⟩ := tryToken_waiting h
      exact ⟨hsleeps.notDue, .inr ⟨rfl, hdue, hsleeps, hdeadline, hsleep⟩⟩
    · rename_i hdue
      cases h
      exact ⟨by simpa using hdue, .inl rfl⟩
  | turn name owner deadline =>
    simp only [resume] at h
    split at h
    · cases h
    · split at h
      · cases h
      · rename_i hdue
        cases h
        exact ⟨by simpa using hdue, .inl rfl⟩
  | permits key plan n deadline =>
    have hw' : w' = .permits key plan n deadline := resume_permits_waiting h
    refine ⟨?_, .inl hw'⟩
    simp only [resume] at h
    split at h
    · cases h
    · split at h
      · exact (tryPermits_sleeps h).1.notDue
      · split at h
        · cases h
        · rename_i hdue
          cases h
          simpa using hdue

/-- Nobody is woken by a look: who gives up does not hold the latch. -/
theorem resume_woken : (s.resume t now w).2.1 = [] := by
  cases w with
  | token =>
    simp only [resume]
    split <;> rfl
  | turn name owner deadline =>
    simp only [resume]
    split
    · rfl
    · rename_i hholder
      split
      · show (s.leaveLatch name t).2 = []
        rw [woken_leaveLatch]
        cases hl : s.latch name with
        | idle => rfl
        | held g line =>
          have hne : g ≠ t := by simpa [hl, Latch.holder?] using hholder
          simp [Latch.leave, hne]
      · rfl
  | permits key plan n deadline =>
    simp only [resume]
    split
    · rfl
    · split
      · rfl
      · split <;> rfl

end Store

namespace Traffic

variable {s : Traffic} {t u : Ticket} {a a' : Attempt} {w : Waiting} {m : Move} {moves : List Move}
  {begun first deadline : Nat}

/-! ## Who can run -/

/-- The call was woken or its timer has fired. -/
def IsReady (s : Traffic) (t : Ticket) : Prop :=
  ∃ a w, s.waiting.get? t = some (a, w) ∧ (t ∈ s.woken ∨ w.isDue s.now = true)

/-- Nobody can run. -/
def IsSettled (s : Traffic) : Prop := ∀ t, ¬ s.IsReady t

/-- After a look at a call the others can run who could before, and this one cannot. -/
theorem isReady_look : (s.step (.look t)).IsReady u ↔ s.IsReady u ∧ u ≠ t := by
  cases hg : s.waiting.get? t with
  | none =>
    have hstep : s.step (.look t) = s := by simp [Traffic.step, hg]
    rw [hstep]
    refine ⟨fun h => ⟨h, ?_⟩, And.left⟩
    rintro rfl
    obtain ⟨a, w, hu, -⟩ := h
    cases hg.symm.trans hu
  | some x =>
    obtain ⟨a, w⟩ := x
    have hstep : s.step (.look t) =
        (s.visit t w (s.store.resume t s.now w).1 (s.store.resume t s.now w).2.1).settle t a
          (s.store.resume t s.now w).2.2 := by
      simp only [Traffic.step, hg]
      rfl
    have hwoken : (s.step (.look t)).woken = s.woken.filter (· ≠ t) := by
      rw [hstep]
      cases (s.store.resume t s.now w).2.2 <;> simp [settle, visit, Store.resume_woken]
    have hnow : (s.step (.look t)).now = s.now := by
      rw [hstep, settle_now]
      rfl
    unfold IsReady
    rw [hwoken, hnow]
    by_cases hu : u = t
    · subst hu
      refine iff_of_false ?_ (fun h => h.2 rfl)
      rintro ⟨a', w', hg', hm | hdue⟩
      · simp at hm
      · rw [hstep] at hg'
        rw [(Store.resume_waiting (settle_get?_self hg').2).1] at hdue
        cases hdue
    · have hget : (s.step (.look t)).waiting.get? u = s.waiting.get? u := by
        rw [hstep, settle_get?_of_ne hu]
        rfl
      simp [hget, hu]

theorem isReady_looks {looks : List Ticket} :
    (s.run (looks.map .look)).IsReady u ↔ s.IsReady u ∧ u ∉ looks := by
  induction looks generalizing s with
  | nil => simp [run]
  | cons t looks ih =>
    have hrun : s.run ((t :: looks).map .look) = (s.step (.look t)).run (looks.map .look) := rfl
    rw [hrun, ih, isReady_look, List.mem_cons, not_or, and_assoc]

theorem now_looks {looks : List Ticket} : (s.run (looks.map .look)).now = s.now := by
  induction looks generalizing s with
  | nil => rfl
  | cons t looks ih =>
    have hstep : (s.step (.look t)).now = s.now := by
      rcases now_step (s := s) (.look t) with h | ⟨_, he, -⟩
      · exact h
      · cases he
    exact ih.trans hstep

/-! ## The time of one call -/

/-- If a call waits under the ticket `t`, it is `a`, which began at `begun`, and its timer fires by
its deadline. -/
structure Dated (t : Ticket) (begun : Nat) (a : Attempt) (s : Traffic) : Prop where
  come : t < s.tickets
  known : ∀ a' w, s.waiting.get? t = some (a', w) → a' = a ∧ a.check = .ok () ∧
    w.deadline = begun + a.wait.nanos ∧ w.due ≤ w.deadline

theorem begin_waiting_sleeps (h : (s.store.begin t s.now a).2 = .waiting w) :
    a.check = .ok () ∧ w.Sleeps s.now ∧ w.deadline = s.now + a.wait.nanos ∧
      w.wantsToken = a.wantsToken := by
  unfold Store.begin at h
  split at h
  · cases h
  · rename_i hc
    exact ⟨hc, Store.start_sleeps h⟩

theorem Sound.waiting_begin (h : Sound s)
    (hw : (s.step (.begin a)).waiting.get? s.tickets = some (a', w)) :
    a' = a ∧ (s.store.begin s.tickets s.now a).2 = .waiting w := by
  rcases waiting_cases hw with ⟨hg, -⟩ | ⟨w₀, -, he, -⟩ | ⟨he, -, hp⟩
  · cases h.get?_tickets.symm.trans hg
  · cases he
  · cases he
    exact ⟨rfl, hp⟩

theorem Sound.dated (h : Sound s) (a : Attempt) :
    Dated s.tickets s.now a (s.step (.begin a)) where
  come := by
    show s.tickets < (s.begin a).tickets
    rw [Sound.begin_tickets]
    exact Nat.lt_succ_self _
  known a' w hw := by
    obtain ⟨rfl, hp⟩ := h.waiting_begin hw
    obtain ⟨hc, hsleeps, hdeadline, -⟩ := begin_waiting_sleeps hp
    exact ⟨rfl, hc, hdeadline, hsleeps.inTime⟩

theorem Dated.step (h : Dated t begun a s) (m : Move) : Dated t begun a (s.step m) where
  come := Nat.lt_of_lt_of_le h.come (tickets_step m)
  known a' w hw := by
    rcases waiting_cases hw with ⟨hg, -⟩ | ⟨w₀, hg, -, hp⟩ | ⟨-, rfl, -⟩
    · exact h.known a' w hg
    · obtain ⟨ha, hc, hdeadline, hdue⟩ := h.known a' w₀ hg
      rcases (Store.resume_waiting hp).2 with rfl | ⟨-, -, hsleeps, he, -⟩
      · exact ⟨ha, hc, hdeadline, hdue⟩
      · exact ⟨ha, hc, he.trans hdeadline, hsleeps.inTime⟩
    · exact absurd h.come (Nat.lt_irrefl _)

theorem Dated.run (h : Dated t begun a s) (moves : List Move) : Dated t begun a (s.run moves) :=
  run_induction h (fun _ m h => h.step m) moves

/-- A call whose time is over can run. -/
theorem Dated.isReady (h : Dated t begun a s) (hw : s.waiting.get? t = some (a', w))
    (hover : Clock.tick (begun + a.wait.nanos) ≤ s.now) : s.IsReady t := by
  obtain ⟨-, -, hdeadline, hdue⟩ := h.known a' w hw
  refine ⟨a', w, hw, .inr (Waiting.isDue_iff.2 ?_)⟩
  exact Nat.le_trans (tick_mono (hdeadline ▸ hdue)) hover

/-! ## Tries of one call -/

/-- The move makes the call `t` look at its bucket. -/
def triesAt (s : Traffic) (t : Ticket) : Move → Bool
  | .begin a => s.tickets = t && a.wantsToken && a.check.isOk
  | .look u => u = t && (s.waiting.get? t).any fun x => x.2.wantsToken && x.2.isDue s.now
  | _ => false

/-- The instants at which the call `t` looks at its bucket. -/
def tries (t : Ticket) : Traffic → List Move → List Nat
  | _, [] => []
  | s, m :: moves => (if s.triesAt t m then [s.now] else []) ++ tries t (s.step m) moves

/-- Instants from `first` on, a millisecond apart, and not more than fit before the deadline if the
last may be at it. -/
structure Spaced (first deadline : Nat) (l : List Nat) : Prop where
  spaced : l.Pairwise fun x y => x + 1_000_000 ≤ y
  later : ∀ x ∈ l, first ≤ x
  few : first + l.length * 1_000_000 ≤ deadline + 1_000_000

namespace Spaced

variable {x next : Nat} {l : List Nat}

theorem nil (h : first ≤ deadline) : Spaced first deadline [] where
  spaced := .nil
  later := nofun
  few := by
    rw [List.length_nil]
    omega

theorem cons (h : Spaced next deadline l) (hx : first ≤ x) (hnext : x + 1_000_000 ≤ next) :
    Spaced first deadline (x :: l) where
  spaced := List.pairwise_cons.2 ⟨fun y hy => Nat.le_trans hnext (h.later y hy), h.spaced⟩
  later := by
    intro y hy
    rcases List.mem_cons.1 hy with rfl | hy
    · exact hx
    · have hlater := h.later y hy
      omega
  few := by
    have hfew := h.few
    rw [List.length_cons]
    omega

theorem last (h : first ≤ deadline) (hx : first ≤ x) : Spaced first deadline [x] where
  spaced := List.pairwise_singleton ..
  later := by
    intro y hy
    rwa [List.mem_singleton.1 hy]
  few := by
    rw [List.length_singleton]
    omega

end Spaced

theorem not_triesAt_of_none (ht : t < s.tickets) (hg : s.waiting.get? t = none) (m : Move) :
    s.triesAt t m = false := by
  cases m with
  | begin a => simp [triesAt, Nat.ne_of_gt ht]
  | look u =>
    by_cases hu : u = t
    · subst hu
      simp [triesAt, hg]
    · simp [triesAt, hu]
  | _ => rfl

/-- Who has come to an end tries no more. -/
theorem tries_of_none (ht : t < s.tickets) (hg : s.waiting.get? t = none) : tries t s moves = [] := by
  induction moves generalizing s with
  | nil => rfl
  | cons m moves ih =>
    have hg' : (s.step m).waiting.get? t = none := by
      cases hx : (s.step m).waiting.get? t with
      | none => rfl
      | some x =>
        rcases waiting_cases hx with ⟨hs, -⟩ | ⟨w₀, hs, -⟩ | ⟨-, rfl, -⟩
        · cases hg.symm.trans hs
        · cases hg.symm.trans hs
        · exact absurd ht (Nat.lt_irrefl _)
    unfold tries
    rw [not_triesAt_of_none ht hg, ih (Nat.lt_of_lt_of_le ht (tickets_step m)) hg']
    rfl

/-- A call that waits tries at its bucket when it is due, and at no other time. -/
theorem triesAt_of_some (ht : t < s.tickets) (hg : s.waiting.get? t = some (a, w)) (m : Move) :
    s.triesAt t m = true ↔ m = .look t ∧ w.wantsToken = true ∧ w.isDue s.now = true := by
  cases m with
  | begin a => simp [triesAt, Nat.ne_of_gt ht]
  | look u =>
    by_cases hu : u = t
    · subst hu
      simp [triesAt, hg]
    · simp [triesAt, hu]
  | _ => simp [triesAt]

/-- The invariant is that a call that sleeps for a token is not woken before `first`. A try moves
`first` on by a millisecond at least. -/
theorem spaced_tries (ht : t < s.tickets) (hle : first ≤ deadline)
    (h : ∀ a w, s.waiting.get? t = some (a, w) →
      w.deadline = deadline ∧ (w.wantsToken = true → first ≤ w.due)) :
    Spaced first deadline (tries t s moves) := by
  induction moves generalizing s first with
  | nil => exact .nil hle
  | cons m moves ih =>
    have ht' : t < (s.step m).tickets := Nat.lt_of_lt_of_le ht (tickets_step m)
    unfold tries
    cases hg : s.waiting.get? t with
    | none =>
      have hnone : tries t s (m :: moves) = [] := tries_of_none ht hg
      unfold tries at hnone
      rw [hnone]
      exact .nil hle
    | some x =>
      obtain ⟨a, w⟩ := x
      obtain ⟨hdeadline, hfirst⟩ := h a w hg
      cases htry : s.triesAt t m with
      | false =>
        refine ih ht' hle fun a' w' hg' => ?_
        rcases waiting_cases hg' with ⟨hsame, -⟩ | ⟨w₀, hg₀, rfl, hp⟩ | ⟨-, rfl, -⟩
        · exact h a' w' hsame
        · rcases (Store.resume_waiting hp).2 with rfl | ⟨hsleep, hdue, -⟩
          · exact h a' w' hg₀
          · cases htry.symm.trans ((triesAt_of_some ht hg₀ _).2 ⟨rfl, hsleep, hdue⟩)
        · exact absurd ht (Nat.lt_irrefl _)
      | true =>
        obtain ⟨rfl, hsleep, hdue⟩ := (triesAt_of_some ht hg m).1 htry
        have hnow : first ≤ s.now :=
          Nat.le_trans (Nat.le_trans (hfirst hsleep) (Clock.le_tick _)) (Waiting.isDue_iff.1 hdue)
        cases hg' : (s.step (.look t)).waiting.get? t with
        | none =>
          rw [tries_of_none ht' hg']
          exact .last hle hnow
        | some x =>
          obtain ⟨a', w'⟩ := x
          obtain ⟨hsleeps, he, hsleep'⟩ :
              w'.Sleeps s.now ∧ w'.deadline = deadline ∧ w'.wantsToken = true := by
            rcases waiting_cases hg' with ⟨-, hne⟩ | ⟨w₀, hg₀, -, hp⟩ | ⟨hm, -⟩
            · exact absurd rfl hne
            · cases hg.symm.trans hg₀
              obtain ⟨hnotDue, hw'⟩ := Store.resume_waiting hp
              rcases hw' with rfl | ⟨-, -, hsleeps, he, hsleep'⟩
              · cases hnotDue.symm.trans hdue
              · exact ⟨hsleeps, he.trans hdeadline, hsleep'⟩
            · cases hm
          have hnext : s.now + 1_000_000 ≤ w'.due := hsleeps.spaced hsleep'
          refine Spaced.cons (ih ht' ?_ fun a'' w'' hg'' => ?_) hnow (Nat.le_refl _)
          · exact Nat.le_trans hnext (he ▸ hsleeps.inTime)
          · cases hg'.symm.trans hg''
            exact ⟨he, fun _ => hnext⟩

/-! ## Every run -/

theorem Sound.spaced_tries (h : Sound s) (a : Attempt) (moves : List Move) :
    Spaced s.now (s.now + a.wait.nanos) (tries s.tickets s (.begin a :: moves)) := by
  have hcome : s.tickets < (s.step (.begin a)).tickets := (h.dated a).come
  unfold tries
  cases hg : (s.step (.begin a)).waiting.get? s.tickets with
  | none =>
    rw [tries_of_none hcome hg, List.append_nil]
    split
    · exact .last (Nat.le_add_right ..) (Nat.le_refl _)
    · exact .nil (Nat.le_add_right ..)
  | some x =>
    obtain ⟨a', w⟩ := x
    obtain ⟨-, hsleeps, hdeadline, hwants⟩ := begin_waiting_sleeps (h.waiting_begin hg).2
    have hrest : ∀ first, first ≤ s.now + a.wait.nanos → (w.wantsToken = true → first ≤ w.due) →
        Spaced first (s.now + a.wait.nanos) (tries s.tickets (s.step (.begin a)) moves) := by
      intro first hle hfirst
      refine Traffic.spaced_tries hcome hle fun a'' w'' hg'' => ?_
      cases hg.symm.trans hg''
      exact ⟨hdeadline, hfirst⟩
    split
    · rename_i htry
      have hwants' : w.wantsToken = true := by
        simp only [triesAt, Bool.and_eq_true] at htry
        exact hwants.trans htry.1.2
      have hnext : s.now + 1_000_000 ≤ w.due := hsleeps.spaced hwants'
      have hle : s.now + 1_000_000 ≤ s.now + a.wait.nanos :=
        Nat.le_trans hnext (hdeadline ▸ hsleeps.inTime)
      exact (hrest _ hle fun _ => hnext).cons (Nat.le_refl _) (Nat.le_refl _)
    · refine hrest _ (Nat.le_add_right ..) fun hwants' => ?_
      exact Nat.le_trans (Nat.le_add_right ..) (hsleeps.spaced hwants')

/-- What is certain of the call `a` that begins in the state `s`, after any further moves. -/
structure Bounded (s : Traffic) (a : Attempt) (moves : List Move) : Prop where
  /-- Once nobody can run, the call is over if its time is. -/
  ended : (s.run (.begin a :: moves)).IsSettled →
    Clock.tick (s.now + a.wait.nanos) ≤ (s.run (.begin a :: moves)).now →
    (s.run (.begin a :: moves)).waiting.get? s.tickets = none
  /-- While it waits, its input is known to be good. -/
  accepted : ∀ a' w, (s.run (.begin a :: moves)).waiting.get? s.tickets = some (a', w) →
    a' = a ∧ a.check = .ok ()
  /-- Nobody can run after one look at each of those who can, in any order, which takes no time. -/
  settles : ∀ looks : List Ticket, (∀ t, (s.run (.begin a :: moves)).IsReady t → t ∈ looks) →
    ((s.run (.begin a :: moves)).run (looks.map .look)).IsSettled ∧
      ((s.run (.begin a :: moves)).run (looks.map .look)).now = (s.run (.begin a :: moves)).now
  /-- The call looks at its bucket at most once in a millisecond, and not later than its deadline. -/
  spaced : Spaced s.now (s.now + a.wait.nanos) (tries s.tickets s (.begin a :: moves))

theorem run_bounded (client : Ulid) (before after : List Move) (a : Attempt) :
    Bounded ((start client).run before) a after := by
  have h : Sound ((start client).run before) := run_sound client before
  have hdated := (h.dated a).run after
  refine ⟨?ended, ?accepted, ?settles, ?spaced⟩
  case ended =>
    intro hsettled hover
    refine Option.eq_none_iff_forall_not_mem.2 fun x hx => ?_
    exact hsettled _ (hdated.isReady hx hover)
  case accepted =>
    intro a' w hw
    obtain ⟨ha, hc, -⟩ := hdated.known a' w hw
    exact ⟨ha, hc⟩
  case settles =>
    intro looks hlooks
    refine ⟨fun t ht => ?_, now_looks⟩
    obtain ⟨hready, hnot⟩ := isReady_looks.1 ht
    exact hnot (hlooks t hready)
  case spaced => exact h.spaced_tries a after

end Traffic

end Turnstile.Local
