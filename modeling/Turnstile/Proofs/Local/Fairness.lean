import Mathlib.Data.List.Sort
import Turnstile.Proofs.Local.Sound

/-!
# First come, first served

Every latch, be it that of a fair lock or of a named lock, is granted in the order in which its
callers came, and is never left idle while somebody waits: without a keeper it has been handed to
the head of its queue, who is woken and is granted the latch when he looks.
-/

namespace Turnstile.Local

namespace Traffic

variable {s : Traffic} {name key : String} {t u : Ticket} {a : Attempt} {w : Waiting}
  {wait : Duration}

/-- Nobody has the latch, nobody was handed it, and nobody waits for it. -/
def IsFree (s : Traffic) (name : String) : Prop :=
  keeper name s.log = none ∧ queue s.waiting name = []

instance : Decidable (s.IsFree name) := inferInstanceAs (Decidable (_ ∧ _))

structure Fair (s : Traffic) : Prop where
  /-- Of two callers who got the latch, the one who came first got it first. -/
  order : ∀ name t u, [t, u].Sublist (arrived name s.log) → t ∈ granted name s.log →
    u ∈ granted name s.log → [t, u].Sublist (granted name s.log)
  /-- A call for a fair lock that does not wait is granted or refused at once. -/
  lock : ∀ key owner wait, wait.isZero = true →
    (Attempt.lock key owner wait).check = .ok () →
    (s.store.begin s.tickets s.now (.lock key owner wait)).2 =
      .done (.ok (if s.IsFree key then some s.tickets else none))
  /-- So is one for a named lock. -/
  named : ∀ key wait, wait.isZero = true → (Attempt.named key wait).check = .ok () →
    (s.store.begin s.tickets s.now (.named key wait)).2 =
      .done (.ok (if s.IsFree (Store.lockName key) then some s.tickets else none))
  /-- Once nobody is left who was woken, a latch for which somebody waits is kept. -/
  settled : ∀ name, (∀ t ∈ queue s.waiting name, t ∉ s.woken) → queue s.waiting name ≠ [] →
    ∃ k, keeper name s.log = some k
  /-- A latch that was handed over goes to the head of the queue at his next look. -/
  handed : ∀ name t rest, keeper name s.log = none → queue s.waiting name = t :: rest →
    t ∈ s.woken ∧ t ∈ granted name (s.step (.look t)).log

theorem pair_sublist {l : List Ticket} (hl : l.Pairwise (· < ·)) (ht : t ∈ l) (hu : u ∈ l)
    (htu : t < u) : [t, u].Sublist l := by
  have hle : l.Pairwise (· ≤ ·) := hl.imp Nat.le_of_lt
  have hpair : [t, u].Pairwise (· ≤ ·) := by simpa using Nat.le_of_lt htu
  have hnd : [t, u].Nodup := by simpa using Nat.ne_of_lt htu
  refine List.sublist_of_subperm_of_pairwise (List.subperm_of_subset hnd fun x hx => ?_) hpair hle
  rcases List.mem_cons.1 hx with rfl | hx
  · exact ht
  · rw [List.mem_singleton.1 hx]
    exact hu

/-- Clocks read whole milliseconds, as timers do. -/
theorem run_now (client : Ulid) (moves : List Move) :
    ∃ k, ((start client).run moves).now = Clock.ofMillis k := by
  refine run_induction (P := fun s => ∃ k, s.now = Clock.ofMillis k) ⟨0, (Nat.zero_mul _).symm⟩
    ?_ moves
  rintro s m ⟨k, hk⟩
  have hsettle : ∀ s₀ : Traffic, ∀ t a p, (s₀.settle t a p).now = s₀.now := by
    intro s₀ t a p
    cases p <;> rfl
  cases m with
  | begin a => exact ⟨k, (hsettle ..).trans hk⟩
  | look t =>
    unfold step
    dsimp only
    split
    · exact ⟨k, (hsettle ..).trans hk⟩
    · exact ⟨k, hk⟩
  | drop t =>
    unfold step
    dsimp only
    split <;> exact ⟨k, hk⟩
  | free key t =>
    unfold step
    dsimp only [free]
    split <;> exact ⟨k, hk⟩
  | pass millis =>
    refine ⟨k + millis, ?_⟩
    show s.now + Clock.ofMillis millis = _
    rw [hk]
    unfold Clock.ofMillis
    omega
  | unlock => exact ⟨k, hk⟩
  | giveBack => exact ⟨k, hk⟩
  | sweep => exact ⟨k, hk⟩

theorem tick_ofMillis (k : Nat) : Clock.tick (Clock.ofMillis k) = Clock.ofMillis k := by
  unfold Clock.tick Clock.ofMillis
  omega

namespace Sound

variable (h : Sound s)
include h

theorem sorted : (arrived name s.log).Pairwise (· < ·) :=
  (List.pairwise_append.1 (h.arrivals name)).1

theorem order (hs : [t, u].Sublist (arrived name s.log)) (ht : t ∈ granted name s.log)
    (hu : u ∈ granted name s.log) : [t, u].Sublist (granted name s.log) := by
  have htu : t < u := by simpa using h.sorted.sublist hs
  have hg : (granted name s.log).Sublist (arrived name s.log) :=
    (List.sublist_append_left ..).trans (h.line name).order
  exact pair_sublist (h.sorted.sublist hg) ht hu htu

theorem isIdle_iff : (s.store.latch name).isIdle = true ↔ s.IsFree name := by
  rw [Latch.isIdle_eq_true, (h.line name).latch, Latch.under_eq_idle]
  rfl

theorem begin_lock {owner : Ulid} (hw : wait.isZero = true)
    (hc : (Attempt.lock key owner wait).check = .ok ()) :
    (s.store.begin s.tickets s.now (.lock key owner wait)).2 =
      .done (.ok (if s.IsFree key then some s.tickets else none)) := by
  unfold Store.begin
  rw [hc]
  simp only [Store.start, hw, if_true, Store.tryLatch]
  by_cases hi : (s.store.latch key).isIdle = true
  · rw [if_pos hi, if_pos (h.isIdle_iff.1 hi)]
  · rw [if_neg hi, if_neg (mt h.isIdle_iff.2 hi)]

theorem begin_named (hnow : Clock.tick s.now ≤ s.now) (hw : wait.isZero = true)
    (hc : (Attempt.named key wait).check = .ok ()) :
    (s.store.begin s.tickets s.now (.named key wait)).2 =
      .done (.ok (if s.IsFree (Store.lockName key) then some s.tickets else none)) := by
  have hz : s.now + wait.nanos = s.now := by
    unfold Duration.isZero at hw
    rw [beq_iff_eq.1 hw]
    rfl
  unfold Store.begin
  rw [hc]
  simp only [Store.start, Store.enterLatch, hz]
  by_cases hi : (s.store.latch (Store.lockName key)).isIdle = true
  · rw [if_pos hi, if_pos (h.isIdle_iff.1 hi)]
  · -- The ticket enters the line, but its time is over at once.
    have hdue : (Waiting.turn (Store.lockName key) none s.now).isDue s.now = true :=
      decide_eq_true hnow
    rw [if_neg hi, if_neg (mt h.isIdle_iff.2 hi)]
    simp only [hdue, if_true]

theorem handed (hk : keeper name s.log = none) {rest : List Ticket}
    (hq : queue s.waiting name = t :: rest) :
    t ∈ s.woken ∧ t ∈ granted name (s.step (.look t)).log := by
  have hm : t ∈ queue s.waiting name := by
    rw [hq]
    exact List.mem_cons_self ..
  obtain ⟨a, w, owner, hg, hw⟩ := mem_queue.1 hm
  have ha : a.turn? = some (name, owner) := (h.turns t a w hg).symm.trans hw
  have hl : (s.store.latch name).holder? = some t := by
    rw [(h.line name).latch, hk, hq]
    rfl
  refine ⟨(h.line name).handed hk t (by rw [hq]; rfl), ?_⟩
  cases w with
  | token => cases hw
  | permits => cases hw
  | turn n o deadline =>
    cases hw
    have hr : s.store.resume t s.now (.turn name owner deadline) =
        (s.store.grantLatch t name owner, [], .done (.ok (some t))) := if_pos hl
    have hlog : (s.step (.look t)).log = s.log ++ [] ++ [.answered t a (.ok (some t))] := by
      simp only [Traffic.step, hg, Traffic.look, hr]
      rfl
    have hgr : (Entry.answered t a (.ok (some t))).granted? = some (name, owner, t) := by
      simp [Entry.granted?, ha]
    rw [hlog, granted_concat hgr]
    exact List.mem_append_right _ (List.mem_singleton.2 rfl)

end Sound

theorem run_fair (client : Ulid) (moves : List Move) : Fair ((start client).run moves) := by
  have h := run_sound client moves
  refine ⟨?order, ?lock, ?named, ?settled, ?handed⟩
  case order =>
    intro name t u hs ht hu
    exact h.order hs ht hu
  case lock =>
    intro key owner wait hw hc
    exact h.begin_lock hw hc
  case named =>
    intro key wait hw hc
    obtain ⟨k, hk⟩ := run_now client moves
    refine h.begin_named ?_ hw hc
    rw [hk, tick_ofMillis]
  case settled =>
    intro name hn hq
    cases hk : keeper name ((start client).run moves).log with
    | some k => exact ⟨k, rfl⟩
    | none =>
      cases hc : queue ((start client).run moves).waiting name with
      | nil => exact absurd hc hq
      | cons t rest =>
        refine absurd (h.handed hk hc).1 (hn t ?_)
        rw [hc]
        exact List.mem_cons_self ..
  case handed =>
    intro name t rest hk hq
    exact h.handed hk hq

/-- The second of three callers is dropped after the lock was handed to him. -/
example : granted "k" ((start ⟨0⟩).run [.begin (.lock "k" ⟨1⟩ .zero),
    .begin (.lock "k" ⟨2⟩ (.ofMillis 5)), .begin (.lock "k" ⟨3⟩ (.ofMillis 5)), .unlock "k" ⟨1⟩,
    .drop 1, .look 2]).log = [0, 2] := by
  decide

end Traffic

end Turnstile.Local
