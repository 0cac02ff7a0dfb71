import Turnstile.Proofs.Local.Deadlines
import Turnstile.Proofs.Local.Parts

/-!
# Releases are heard

Who gives permits back calls those who wait for them and hands nothing over: who is called looks
again, may find that a newcomer was faster, and goes back to the line. Still no release is missed
(`Traffic.run_heard`). Who stands in a line and was not called has looked at the pool since permits
were last given back, and the pool is the one in the table.

A look takes its caller off both lists of the pool and, if it has to wait on, puts it into the
line. Between two of its looks a caller can only move from the line to those that are called, and
it does so whenever permits are given back (`called_step_iff`). That is the invariant.
-/

namespace Turnstile.Local

namespace Pool

variable {p : Pool} {plan : PoolPlan} {n now : Nat} {t : Ticket}

/-- Who waits makes no difference to the answer. -/
theorem take_leave : ((p.leave t).take plan n now).2 = (p.take plan n now).2 := by
  have havail : ((p.leave t).reshape plan now).available = (p.reshape plan now).available := by
    unfold reshape
    dsimp only
    by_cases he : p.isExpired now = true
    · rw [if_pos he, if_pos (show (p.leave t).isExpired now = true from he)]
    · rw [if_neg he, if_neg (show ¬(p.leave t).isExpired now = true from he)]
      rfl
  rw [take_answer, take_answer, havail]

theorem called_giveBack (ho : p.outstanding ≠ []) : (p.giveBack now).1.called = p.callers := by
  unfold giveBack
  split
  · rename_i hnil
    exact absurd hnil ho
  · rfl

end Pool

/-- The pool that an attempt asks for permits. -/
def Attempt.pool? : Attempt → Option String
  | permits key _ _ => some key
  | _ => none

theorem Waiting.pool?_eq_some {w : Waiting} {key : String} :
    w.pool? = some key ↔ ∃ plan n deadline, w = .permits key plan n deadline := by
  cases w with
  | permits k plan n deadline =>
    constructor
    · intro h
      cases h
      exact ⟨plan, n, deadline, rfl⟩
    · rintro ⟨_, _, _, h⟩
      cases h
      rfl
  | _ => simp [pool?]

namespace Store

variable {s s' : Store} {t u : Ticket} {now n deadline : Nat} {key key' : String} {plan : PoolPlan}
  {demand : PoolDemand} {a : Attempt} {w : Waiting} {p : Pool}

/-- Those who were called by the pool of `key` and have not looked since. -/
def called (s : Store) (key : String) : List Ticket := s.ofPool key [] Pool.called

theorem mem_callers_of_called (h : t ∈ s.called key) : t ∈ s.callers key := by
  obtain ⟨p, hp, ht⟩ := exists_of_mem_ofPool h
  unfold callers
  rw [ofPool_of_get? hp]
  exact List.mem_append_left _ ht

theorem mem_called_leave (hp : s.pools.get? key' = some p) (hu : t ≠ u) (key : String) :
    t ∈ ({ s with pools := s.pools.insert key' (p.leave u) } : Store).called key ↔
      t ∈ s.called key := by
  unfold called
  rw [ofPool_insert]
  by_cases hk : key = key'
  · subst hk
    rw [if_pos rfl, ofPool_of_get? hp]
    exact Pool.mem_called_leave hu
  · rw [if_neg hk]

/-- A look calls nobody. -/
theorem called_tryPermits (key' : String) :
    (s.tryPermits t now key plan n deadline).1.called key' = s.called key' := by
  obtain ⟨p, hp, hpools⟩ := @tryPermits_pool s t now n deadline key plan
  have hcalled : p.called = s.called key := by
    have hfor : (s.poolFor key plan now).called = s.called key := ofPool_poolFor rfl
    rcases hp with rfl | rfl
    · exact Pool.called_take.trans hfor
    · exact Pool.called_take.trans hfor
  have hpools := hpools key'
  by_cases hk : key' = key
  · subst hk
    rw [if_pos rfl] at hpools
    exact (ofPool_of_get? hpools).trans hcalled
  · rw [if_neg hk] at hpools
    exact ofPool_of_get?_eq hpools

theorem called_begin : (s.begin t now a).1.called key = s.called key := by
  by_cases ha : ∃ key plan demand, a = .permits key plan demand
  · obtain ⟨key', plan, demand, rfl⟩ := ha
    unfold begin
    split
    · rfl
    · exact called_tryPermits key
  · exact ofPool_congr (begin_pools fun key plan demand he => ha ⟨key, plan, demand, he⟩)

/-- Another caller's look takes nobody else off the list of those that are called. -/
theorem mem_called_resume (hu : t ≠ u) :
    t ∈ (s.resume u now w).1.called key ↔ t ∈ s.called key := by
  have hother : (∀ key plan n deadline, w ≠ .permits key plan n deadline) →
      (s.resume u now w).1.called key = s.called key := fun hw => ofPool_congr (resume_pools hw)
  cases w with
  | token => rw [hother fun _ _ _ _ he => by cases he]
  | turn => rw [hother fun _ _ _ _ he => by cases he]
  | permits key' plan n deadline =>
    unfold resume
    dsimp only
    split
    · rfl
    · rename_i p hp
      split
      · rw [called_tryPermits]
        exact mem_called_leave hp hu key
      · split
        · exact mem_called_leave hp hu key
        · rfl

theorem mem_called_cancel (hu : t ≠ u) : t ∈ (s.cancel u w).1.called key ↔ t ∈ s.called key := by
  cases w with
  | token => rfl
  | turn => exact iff_of_eq (congrArg (t ∈ ·) (ofPool_congr pools_leaveLatch))
  | permits key' plan n deadline =>
    cases hp : s.pools.get? key' with
    | none => simp only [cancel, Table.modify, hp]
    | some p =>
      simp only [cancel, Table.modify, hp]
      exact mem_called_leave hp hu key

theorem called_sweep {time : Nat} : (s.sweep time).called key = s.called key :=
  ofPool_sweep fun _ hp => (List.append_eq_nil_iff.1 (Pool.callers_eq_nil hp)).1

/-! ## What the answers tell about the looks -/

theorem tryPermits_short (h : (s.tryPermits t now key plan n deadline).2 = .waiting w) :
    (s.takePermits key plan n now).2 = .short := by
  unfold tryPermits at h
  split at h
  · cases h
  · cases h
  · rename_i hs
    rw [hs]

theorem tryPermits_refused (h : (s.tryPermits t now key plan n deadline).2 = .done (.ok none)) :
    (s.takePermits key plan n now).2 ≠ .granted := by
  unfold tryPermits at h
  split at h
  · cases h
  · rename_i hs
    rw [hs]
    exact nofun
  · rename_i hs
    rw [hs]
    exact nofun

/-- Who was called tries anew, after it has left the lists of the pool. -/
theorem resume_of_called (hp : s.pools.get? key = some p) (ht : t ∈ p.called) :
    (s.resume t now (.permits key plan n deadline)).2.2 =
      (({ s with pools := s.pools.insert key (p.leave t) } : Store).tryPermits t now key plan n
        deadline).2 := by
  unfold resume
  simp only [hp, ht, if_true]

theorem takePermits_leave (hp : s.pools.get? key = some p) :
    (({ s with pools := s.pools.insert key (p.leave t) } : Store).takePermits key plan n now).2 =
      (s.takePermits key plan n now).2 := by
  unfold takePermits
  simp only [Table.get?_insert, if_true, hp, Option.getD_some]
  exact Pool.take_leave

/-- After a look nobody is called. -/
theorem not_mem_called_resume (hn : (s.callers key).Nodup) :
    t ∉ (s.resume t now (.permits key plan n deadline)).1.called key := by
  have hleave : ∀ p, s.pools.get? key = some p →
      t ∉ ({ s with pools := s.pools.insert key (p.leave t) } : Store).called key := by
    intro p hp
    unfold called
    rw [ofPool_insert, if_pos rfl]
    unfold callers at hn
    rw [ofPool_of_get? hp] at hn
    exact (List.nodup_append.1 hn).1.not_mem_erase
  unfold resume
  dsimp only
  split
  · rename_i hnone
    unfold called
    rw [ofPool_of_none hnone]
    exact List.not_mem_nil
  · rename_i p hp
    split
    · rw [called_tryPermits]
      exact hleave p hp
    · rename_i hcalled
      split
      · exact hleave p hp
      · unfold called
        rwa [ofPool_of_get? hp]

theorem pool?_of_resume {w' : Waiting} (h : (s.resume t now w).2.2 = .waiting w') :
    w'.pool? = w.pool? := by
  cases hw : w.pool? with
  | none =>
    have hnone := @resume_pool? s t now w hw
    rwa [h] at hnone
  | some key =>
    obtain ⟨plan, n, deadline, rfl⟩ := Waiting.pool?_eq_some.1 hw
    rw [resume_permits_waiting h]
    rfl

theorem pool?_of_begin (h : (s.begin t now a).2 = .waiting w) : w.pool? = a.pool? := by
  have hother : (∀ key plan demand, a ≠ .permits key plan demand) → w.pool? = none := by
    intro hne
    have hnone := @begin_pool? s t now a hne
    rwa [h] at hnone
  cases a with
  | permits key plan demand =>
    unfold begin at h
    split at h
    · cases h
    · rw [tryPermits_waiting h]
      rfl
  | _ => exact hother (fun _ _ _ he => by cases he)

theorem get?_sweep {time : Nat} (ht : t ∈ s.callers key) :
    (s.sweep time).pools.get? key = s.pools.get? key := by
  obtain ⟨p, hp, ht⟩ := exists_of_mem_ofPool ht
  have hawaited : p.isAwaited = true := Pool.isAwaited_iff.2 (List.ne_nil_of_mem ht)
  rw [pools_sweep, Table.get?_retain, hp]
  simp [Option.filter, hawaited]

end Store

namespace Traffic

variable {s s₀ : Traffic} {key : String} {t u : Ticket} {a : Attempt} {w : Waiting} {m : Move}
  {moves : List Move} {l : Pool.Look} {plan : PoolPlan} {demand : PoolDemand}

/-- The look at a pool that a move makes: whose it is, at which key, and what it comes to. -/
def check? (s : Traffic) : Move → Option (Ticket × String × Pool.Look)
  | .begin (.permits key plan demand) =>
    match (Attempt.permits key plan demand).check with
    | .ok () => some (s.tickets, key, (s.store.takePermits key plan demand.permits.toNat s.now).2)
    | .error _ => none
  | .look t =>
    match s.waiting.get? t with
    | some (_, .permits key plan n _) =>
      if t ∈ s.store.called key then some (t, key, (s.store.takePermits key plan n s.now).2)
      else none
    | _ => none
  | _ => none

/-- The move gives permits of `key` back. -/
def returns (s : Traffic) (key : String) : Move → Bool
  | .giveBack k => k = key && (s.store.pools.get? key).any fun p => !p.outstanding.isEmpty
  | _ => false

/-- No permits of `key` are given back, and `t` does not look at a pool. -/
def isSilent (key : String) (t : Ticket) (s : Traffic) (m : Move) : Bool :=
  !s.returns key m && (s.check? m).all fun x => x.1 ≠ t

/-- The last look of `t` was at the pool of `key` and came to `l`, and no permits of `key` were
given back after it. -/
def Looked (s : Traffic) (moves : List Move) (t : Ticket) (key : String) (l : Pool.Look) : Prop :=
  ∃ before m after, moves = before ++ m :: after ∧ (s.run before).check? m = some (t, key, l) ∧
    allFit step (isSilent key t) ((s.run before).step m) after = true

/-- The table has had the pool of `key` ever since the attempt `t` began. -/
def Stays (s : Traffic) (moves : List Move) (t : Ticket) (key : String) : Prop :=
  ∃ before a after, moves = before ++ .begin a :: after ∧ (s.run before).tickets = t ∧
    ∀ mid, mid <+: after → (s.run (before ++ .begin a :: mid)).store.pools.contains key = true

theorem run_append (before after : List Move) :
    s.run (before ++ after) = (s.run before).run after := List.foldl_append

theorem Looked.now (h : (s.run moves).check? m = some (t, key, l)) :
    s.Looked (moves ++ [m]) t key l :=
  ⟨moves, m, [], rfl, h, rfl⟩

theorem Looked.concat (h : s.Looked moves t key l) (hm : isSilent key t (s.run moves) m = true) :
    s.Looked (moves ++ [m]) t key l := by
  obtain ⟨before, m', after, rfl, hcheck, hfit⟩ := h
  refine ⟨before, m', after ++ [m], by simp, hcheck, ?_⟩
  rw [run_append] at hm
  rw [allFit_concat, hfit, Bool.true_and]
  exact hm

/-- Who looks after the last release looks after each one before. -/
theorem Looked.after {before after : List Move} (h : s.Looked moves t key l)
    (hmoves : moves = before ++ .giveBack key :: after)
    (hr : (s.run before).returns key (.giveBack key) = true) :
    ∃ mid m rest, after = mid ++ m :: rest ∧
      (s.run (before ++ .giveBack key :: mid)).check? m = some (t, key, l) := by
  obtain ⟨before', m, after', rfl, hcheck, hfit⟩ := h
  rcases List.append_eq_append_iff.1 hmoves with ⟨mid, hb, ha⟩ | ⟨mid, hb, ha⟩
  · cases mid with
    | nil =>
      -- The release is no look.
      cases ha
      cases hcheck
    | cons m' mid =>
      -- A release after the look is not silent.
      rw [List.cons_append, List.cons_eq_cons] at ha
      obtain ⟨rfl, rfl⟩ := ha
      subst hb
      rw [run_append] at hr
      rw [allFit_append, Bool.and_eq_true] at hfit
      have hsilent := (Bool.and_eq_true_iff.1 hfit.2).1
      rw [isSilent, Bool.and_eq_true, Bool.not_eq_true'] at hsilent
      cases hsilent.1.symm.trans hr
  · cases mid with
    | nil =>
      cases ha
      cases hcheck
    | cons m' mid =>
      cases ha
      exact ⟨mid, m, after', rfl, hb ▸ hcheck⟩

/-- The pool of `key`, which is created full, and those who wait at it. -/
def weave (s : Traffic) (key : String) (plan : PoolPlan) : Weave where
  pool := s.store.poolFor key plan s.now
  now := s.now
  calls t :=
    match s.waiting.get? t with
    | some (_, .permits k plan n _) => if k = key then some ⟨plan, n, .asleep, 0⟩ else none
    | _ => none
  refunds := 0
  announced := 0

theorem weave_heard (h : Attended s.waiting s.store) (key : String) (plan : PoolPlan) :
    (s.weave key plan).Heard := by
  have hasker : ∀ t c, (s.weave key plan).calls t = some c → t ∈ s.store.callers key := by
    intro t c hc
    simp only [weave] at hc
    split at hc
    · rename_i a k plan' n deadline hg
      split at hc
      · rename_i hk
        exact (h.mem_of_get? hg key).2 (congrArg some hk)
      · cases hc
    · cases hc
  refine ⟨?callers, ?looked, ?seen, ?announced⟩
  case callers =>
    intro t c hc _
    have hcallers : (s.store.poolFor key plan s.now).callers = s.store.callers key :=
      Store.ofPool_poolFor rfl
    show t ∈ (s.store.poolFor key plan s.now).callers
    rw [hcallers]
    exact hasker t c hc
  case looked => exact fun _ c _ _ _ => Nat.zero_le c.seen
  case seen =>
    intro t c hc
    simp only [weave] at hc
    split at hc
    · split at hc
      · cases hc
        exact Nat.le_refl _
      · cases hc
    · cases hc
  case announced => exact Nat.le_refl _

/-! ## One step -/

theorem returns_iff :
    s.returns key m = true ↔
      m = .giveBack key ∧ ∃ p, s.store.pools.get? key = some p ∧ p.outstanding ≠ [] := by
  cases m with
  | giveBack k =>
    by_cases hk : k = key
    · subst hk
      cases hp : s.store.pools.get? k <;> simp [returns, hp]
    · simp [returns, hk]
  | _ => simp [returns]

theorem check?_ne (ht : t < s.tickets) (hm : m ≠ .look t) :
    (s.check? m).all (fun x => x.1 ≠ t) = true := by
  cases m with
  | begin a =>
    cases a with
    | permits key plan demand =>
      unfold check?
      dsimp only
      split
      · simp [Nat.ne_of_gt ht]
      · rfl
    | _ => rfl
  | look u =>
    have hu : u ≠ t := fun he => hm (he ▸ rfl)
    unfold check?
    dsimp only
    split
    · split
      · simp [hu]
      · rfl
    · rfl
  | _ => rfl

theorem check?_look {n deadline : Nat}
    (hg : s.waiting.get? t = some (a, .permits key plan n deadline)) (ht : t ∈ s.store.called key) :
    s.check? (.look t) = some (t, key, (s.store.takePermits key plan n s.now).2) := by
  simp only [check?, hg, ht, if_true]

theorem check?_look_of_not_called {n deadline : Nat}
    (hg : s.waiting.get? t = some (a, .permits key plan n deadline)) (ht : t ∉ s.store.called key) :
    s.check? (.look t) = none := by
  simp only [check?, hg, ht, if_false]

theorem check?_begin (hc : (Attempt.permits key plan demand).check = .ok ()) :
    s.check? (.begin (.permits key plan demand)) =
      some (s.tickets, key, (s.store.takePermits key plan demand.permits.toNat s.now).2) := by
  simp only [check?, hc]

theorem mem_called_giveBack (h : Attended s.waiting s.store) (k : String)
    (hg : s.waiting.get? t = some (a, w)) :
    t ∈ (s.giveBack k).store.called key ↔
      t ∈ s.store.called key ∨ w.pool? = some key ∧ s.returns key (.giveBack k) = true := by
  show t ∈ (s.store.giveBack k s.now).1.called key ↔ _
  rw [returns_iff, ← h.mem_of_get? hg]
  unfold Store.called Store.callers
  by_cases hout : ∃ p, s.store.pools.get? k = some p ∧ p.outstanding ≠ []
  · obtain ⟨p, hp, hout⟩ := hout
    have hpools := @Store.giveBack_pools s.store s.now k p hp key
    by_cases hk : key = k
    · subst hk
      rw [if_pos rfl] at hpools
      rw [Store.ofPool_of_get? hpools, Pool.called_giveBack hout, Store.ofPool_of_get? hp,
        Store.ofPool_of_get? hp]
      constructor
      · exact fun ht => .inr ⟨ht, rfl, p, hp, hout⟩
      · rintro (ht | ⟨ht, -⟩)
        · exact List.mem_append_left _ ht
        · exact ht
    · rw [if_neg hk] at hpools
      rw [Store.ofPool_of_get?_eq hpools]
      constructor
      · exact .inl
      · rintro (ht | ⟨-, hm, -⟩)
        · exact ht
        · exact absurd (Move.giveBack.inj hm).symm hk
  · have hidle : s.store.giveBack k s.now = (s.store, []) := by
      refine Store.giveBack_idle fun p hp => ?_
      by_contra hne
      exact hout ⟨p, hp, hne⟩
    rw [hidle]
    constructor
    · exact .inl
    · rintro (ht | ⟨-, hm, p, hp, hne⟩)
      · exact ht
      · cases hm
        exact absurd ⟨p, hp, hne⟩ hout

/-- Who waits and does not look is called by every release, and stays called. -/
theorem called_step_iff (h : Attended s.waiting s.store) (hg : s.waiting.get? t = some (a, w))
    (hm : m ≠ .look t) (hm' : m ≠ .drop t) :
    t ∈ (s.step m).store.called key ↔
      t ∈ s.store.called key ∨ w.pool? = some key ∧ s.returns key m = true := by
  have hnone : ∀ {s' : Traffic}, (t ∈ s'.store.called key ↔ t ∈ s.store.called key) →
      s.returns key m = false → (t ∈ s'.store.called key ↔
        t ∈ s.store.called key ∨ w.pool? = some key ∧ s.returns key m = true) := by
    intro s' he hr
    rw [he, hr]
    simp
  cases m with
  | giveBack k => exact mem_called_giveBack h k hg
  | begin a' =>
    refine hnone ?_ rfl
    show t ∈ (s.begin a').store.called key ↔ _
    rw [Traffic.begin, settle_store]
    exact iff_of_eq (congrArg (t ∈ ·) Store.called_begin)
  | look u =>
    have hu : t ≠ u := fun he => hm (he ▸ rfl)
    refine hnone ?_ rfl
    simp only [Traffic.step]
    split
    · rw [look, settle_store]
      exact Store.mem_called_resume hu
    · rfl
  | drop u =>
    have hu : t ≠ u := fun he => hm' (he ▸ rfl)
    refine hnone ?_ rfl
    simp only [Traffic.step]
    split
    · exact Store.mem_called_cancel hu
    · rfl
  | unlock k o =>
    exact hnone (iff_of_eq (congrArg (t ∈ ·) (Store.ofPool_congr unlock_pools))) rfl
  | free k u =>
    refine hnone ?_ rfl
    simp only [Traffic.step, Traffic.free]
    split
    · exact iff_of_eq (congrArg (t ∈ ·) (Store.ofPool_congr Store.pools_leaveLatch))
    · rfl
  | sweep time => exact hnone (iff_of_eq (congrArg (t ∈ ·) Store.called_sweep)) rfl
  | pass millis =>
    obtain ⟨now, -, hpass⟩ := s.step_pass millis
    rw [hpass s rfl]
    exact hnone Iff.rfl rfl

theorem mem_woken_step (ht : t ∈ s.woken) (hm : m ≠ .look t) (hm' : m ≠ .drop t) :
    t ∈ (s.step m).woken := by
  have hkeep : ∀ u, u ≠ t → t ∈ s.woken.filter (· ≠ u) := fun u hu =>
    List.mem_filter.2 ⟨ht, by simpa using hu.symm⟩
  cases m with
  | begin a =>
    show t ∈ (s.begin a).woken
    unfold Traffic.begin
    dsimp only
    cases (s.store.begin s.tickets s.now a).2 <;> exact ht
  | look u =>
    have hu : u ≠ t := fun he => hm (he ▸ rfl)
    simp only [Traffic.step]
    split
    · rename_i a w hg
      unfold look
      dsimp only
      cases (s.store.resume u s.now w).2.2 <;> exact List.mem_append_left _ (hkeep u hu)
    · exact ht
  | drop u =>
    have hu : u ≠ t := fun he => hm' (he ▸ rfl)
    simp only [Traffic.step]
    split
    · exact List.mem_append_left _ (hkeep u hu)
    · exact ht
  | unlock => exact List.mem_append_left _ ht
  | free k u =>
    simp only [Traffic.step, Traffic.free]
    split
    · exact List.mem_append_left _ ht
    · exact ht
  | giveBack => exact List.mem_append_left _ ht
  | sweep => exact ht
  | pass millis =>
    obtain ⟨now, -, hpass⟩ := s.step_pass millis
    rw [hpass s rfl]
    exact ht

/-- Whom a release calls, it wakes. -/
theorem mem_woken_giveBack (hr : s.returns key m = true) (ht : t ∈ s.store.callers key) :
    t ∈ s.store.called key ∨ t ∈ (s.step m).woken := by
  obtain ⟨rfl, p, hp, hout⟩ := returns_iff.1 hr
  unfold Store.callers at ht
  unfold Store.called
  rw [Store.ofPool_of_get? hp] at ht ⊢
  refine (List.mem_append.1 ht).imp_right fun hline => ?_
  have hcalls : (s.store.giveBack key s.now).2 = p.line := by
    cases ho : p.outstanding with
    | nil => exact absurd ho hout
    | cons n rest => simp only [Store.giveBack, hp, Pool.giveBack, ho]
  show t ∈ s.woken ++ (s.store.giveBack key s.now).2
  rw [hcalls]
  exact List.mem_append_right _ hline

/-! ## Looks that are refused -/

theorem begin_eq_permits (h : (s.store.begin t s.now a).2 = .waiting w) (hw : w.pool? = some key) :
    ∃ plan demand, a = .permits key plan demand ∧ a.check = .ok () := by
  have ha : a.pool? = some key := (Store.pool?_of_begin h).symm.trans hw
  cases a with
  | permits key' plan demand =>
    cases ha
    exact ⟨plan, demand, rfl, (begin_waiting_sleeps h).1⟩
  | _ => cases ha

/-- Who has come and waits was refused for now. -/
theorem check?_begin_waiting (h : (s.store.begin s.tickets s.now a).2 = .waiting w)
    (hw : w.pool? = some key) : s.check? (.begin a) = some (s.tickets, key, .short) := by
  obtain ⟨plan, demand, rfl, hc⟩ := begin_eq_permits h hw
  rw [Store.begin_permits_of_check hc] at h
  rw [check?_begin hc, Store.tryPermits_short h]

/-- Who was called and waits on was refused for now. -/
theorem check?_look_waiting {n deadline : Nat} {w' : Waiting}
    (hg : s.waiting.get? t = some (a, .permits key plan n deadline)) (ht : t ∈ s.store.called key)
    (h : (s.store.resume t s.now (.permits key plan n deadline)).2.2 = .waiting w') :
    s.check? (.look t) = some (t, key, .short) := by
  obtain ⟨p, hp, hcalled⟩ := Store.exists_of_mem_ofPool ht
  rw [check?_look hg ht]
  rw [Store.resume_of_called hp hcalled] at h
  rw [← Store.takePermits_leave hp, Store.tryPermits_short h]

theorem isSilent_of_ne (ht : t < s.tickets) (hm : m ≠ .look t) (hr : s.returns key m = false) :
    isSilent key t s m = true := by
  rw [isSilent, hr, check?_ne ht hm]
  rfl

theorem isSilent_look (h : s.check? (.look t) = none) : isSilent key t s (.look t) = true := by
  rw [isSilent, h]
  rfl

/-- Who waits for permits after a step waited for them before and was not looked at, or waits on
after a look, or has just come. -/
theorem asker_cases (hg : (s.step m).waiting.get? t = some (a, w)) (hw : w.pool? = some key) :
    s.waiting.get? t = some (a, w) ∧ m ≠ .look t ∧ m ≠ .drop t ∨
      (∃ plan n deadline, w = .permits key plan n deadline ∧ s.waiting.get? t = some (a, w) ∧
        m = .look t ∧ (s.store.resume t s.now w).2.2 = .waiting w) ∨
      m = .begin a ∧ t = s.tickets ∧ (s.store.begin t s.now a).2 = .waiting w := by
  rcases waiting_cases hg with ⟨hg₀, hm⟩ | ⟨w₀, hg₀, rfl, hp⟩ | hbegin
  · refine .inl ⟨hg₀, hm, ?_⟩
    rintro rfl
    have hgone : (s.drop t w).waiting.get? t = none := by
      show (s.waiting.erase t).get? t = none
      rw [Table.get?_erase, if_pos rfl]
    simp only [Traffic.step, hg₀] at hg
    cases hgone.symm.trans hg
  · have hpool : (s.store.resume t s.now w₀).2.2.pool? = some key := by rw [hp]; exact hw
    cases w₀ with
    | token =>
      rw [Store.resume_pool? rfl] at hpool
      cases hpool
    | turn =>
      rw [Store.resume_pool? rfl] at hpool
      cases hpool
    | permits key' plan n deadline =>
      have he : w = .permits key' plan n deadline := Store.resume_permits_waiting hp
      subst he
      cases hw
      exact .inr (.inl ⟨plan, n, deadline, rfl, hg₀, rfl, hp⟩)
  · exact .inr (.inr hbegin)

/-! ## Every run -/

section

variable {client : Ulid}

/-- Who stands in the line has looked since the last release. -/
theorem run_looked (moves : List Move)
    (hg : ((start client).run moves).waiting.get? t = some (a, w)) (hw : w.pool? = some key)
    (ht : t ∉ ((start client).run moves).store.called key) :
    (start client).Looked moves t key .short := by
  induction moves using List.reverseRecOn with
  | nil => cases hg
  | append_singleton moves m ih =>
    rw [run_concat] at hg ht
    have hs := run_sound client moves
    rcases asker_cases hg hw with
      ⟨hg₀, hm, hm'⟩ | ⟨plan, n, deadline, rfl, hg₀, rfl, hp⟩ | ⟨rfl, rfl, hp⟩
    · rw [called_step_iff (run_attended client moves) hg₀ hm hm', not_or] at ht
      have hr : ((start client).run moves).returns key m = false :=
        Bool.eq_false_iff.2 fun hr => ht.2 ⟨hw, hr⟩
      exact (ih hg₀ ht.1).concat (isSilent_of_ne (hs.fresh t _ hg₀) hm hr)
    · by_cases hcalled : t ∈ ((start client).run moves).store.called key
      · exact .now (check?_look_waiting hg₀ hcalled hp)
      · exact (ih hg₀ hcalled).concat (isSilent_look (check?_look_of_not_called hg₀ hcalled))
    · exact .now (check?_begin_waiting hp hw)

/-- Who was called is awake. -/
theorem run_woken (moves : List Move)
    (hg : ((start client).run moves).waiting.get? t = some (a, w)) (hw : w.pool? = some key)
    (ht : t ∈ ((start client).run moves).store.called key) :
    t ∈ ((start client).run moves).woken := by
  induction moves using List.reverseRecOn with
  | nil => cases hg
  | append_singleton moves m ih =>
    rw [run_concat] at hg ht ⊢
    have hs := run_sound client moves
    have ha := run_attended client moves
    rcases asker_cases hg hw with
      ⟨hg₀, hm, hm'⟩ | ⟨plan, n, deadline, rfl, hg₀, rfl, hp⟩ | ⟨rfl, rfl, hp⟩
    · have hstay : t ∈ ((start client).run moves).store.called key →
          t ∈ (((start client).run moves).step m).woken :=
        fun hcalled => mem_woken_step (ih hg₀ hcalled) hm hm'
      rcases (called_step_iff ha hg₀ hm hm').1 ht with hcalled | ⟨-, hr⟩
      · exact hstay hcalled
      · exact (mem_woken_giveBack hr ((ha.mem_of_get? hg₀ key).2 hw)).elim hstay id
    · have hnot : t ∉ (((start client).run moves).step (.look t)).store.called key := by
        simp only [Traffic.step, hg₀, look, settle_store]
        exact Store.not_mem_called_resume (ha.nodup key)
      exact absurd ht hnot
    · have hcalled : ((start client).run moves).tickets ∈
          ((start client).run moves).store.called key := by
        change _ ∈ (((start client).run moves).begin a).store.called key at ht
        rw [Traffic.begin, settle_store] at ht
        exact Store.called_begin ▸ ht
      exact absurd (Store.mem_callers_of_called hcalled) (ha.not_mem hs.get?_tickets key)

theorem contains_of_asker (hg : ((start client).run moves).waiting.get? t = some (a, w))
    (hw : w.pool? = some key) : ((start client).run moves).store.pools.contains key = true := by
  have ht := ((run_attended client moves).mem_of_get? hg key).2 hw
  obtain ⟨p, hp, -⟩ := Store.exists_of_mem_ofPool ht
  simp [Table.contains, hp]

/-- While somebody waits for permits, nobody replaces the pool. -/
theorem run_stays (moves : List Move)
    (hg : ((start client).run moves).waiting.get? t = some (a, w)) (hw : w.pool? = some key) :
    (start client).Stays moves t key := by
  induction moves using List.reverseRecOn with
  | nil => cases hg
  | append_singleton moves m ih =>
    have hnow := contains_of_asker hg hw
    rw [run_concat] at hg
    have hlater : (start client).Stays moves t key → (start client).Stays (moves ++ [m]) t key := by
      rintro ⟨before, a₀, after, rfl, ht, hstay⟩
      refine ⟨before, a₀, after ++ [m], by simp, ht, fun mid hmid => ?_⟩
      rcases List.prefix_concat_iff.1 hmid with rfl | hmid
      · simpa using hnow
      · exact hstay mid hmid
    rcases asker_cases hg hw with ⟨hg₀, -, -⟩ | ⟨plan, n, deadline, -, hg₀, -⟩ | ⟨rfl, rfl, -⟩
    · exact hlater (ih hg₀)
    · exact hlater (ih hg₀)
    · refine ⟨moves, a, [], rfl, rfl, fun mid hmid => ?_⟩
      rw [List.prefix_nil.1 hmid]
      exact hnow

/-- Who waits remembers whose permits were asked for. -/
theorem run_pool? (moves : List Move)
    (hg : ((start client).run moves).waiting.get? t = some (a, w)) : w.pool? = a.pool? := by
  induction moves using List.reverseRecOn generalizing a w with
  | nil => cases hg
  | append_singleton moves m ih =>
    rw [run_concat] at hg
    rcases waiting_cases hg with ⟨hg₀, -⟩ | ⟨w₀, hg₀, -, hp⟩ | ⟨-, -, hp⟩
    · exact ih hg₀
    · rw [← ih hg₀]
      exact Store.pool?_of_resume hp
    · exact Store.pool?_of_begin hp

/-- Who is told that the permits are not there has looked since the last release. -/
theorem run_refused (moves : List Move)
    (h : ((start client).run moves).note m =
      some (.answered t (.permits key plan demand) (.ok none))) :
    ∃ l, l ≠ .granted ∧ (start client).Looked (moves ++ [m]) t key l := by
  have ha := run_attended client moves
  cases m with
  | begin a =>
    obtain ⟨o, ho, he⟩ := Option.map_eq_some_iff.1 h
    cases he
    have hdone := Progress.answer?_eq_some.1 ho
    cases hc : (Attempt.permits key plan demand).check with
    | error e =>
      rw [Store.begin, hc] at hdone
      cases hdone
    | ok u =>
      rw [Store.begin_permits_of_check hc] at hdone
      exact ⟨_, Store.tryPermits_refused hdone, .now (check?_begin hc)⟩
  | look u =>
    simp only [note] at h
    split at h
    · rename_i a w hg
      obtain ⟨o, ho, he⟩ := Option.map_eq_some_iff.1 h
      cases he
      have hdone := Progress.answer?_eq_some.1 ho
      have hw : w.pool? = some key := run_pool? moves hg
      obtain ⟨plan', n, deadline, rfl⟩ := Waiting.pool?_eq_some.1 hw
      by_cases hcalled : t ∈ ((start client).run moves).store.called key
      · obtain ⟨p, hp, hmem⟩ := Store.exists_of_mem_ofPool hcalled
        rw [Store.resume_of_called hp hmem] at hdone
        refine ⟨_, ?_, .now (check?_look hg hcalled)⟩
        rw [← Store.takePermits_leave hp]
        exact Store.tryPermits_refused hdone
      · exact ⟨.short, fun he => (by cases he), (run_looked moves hg hw hcalled).concat
          (isSilent_look (check?_look_of_not_called hg hcalled))⟩
    · cases h
  | drop u =>
    obtain ⟨x, -, he⟩ := Option.map_eq_some_iff.1 h
    cases he
  | free k u =>
    simp only [note] at h
    split at h <;> cases h
  | unlock => cases h
  | giveBack => cases h
  | sweep => cases h
  | pass => cases h

/-- What is certain of the calls for permits after the moves. -/
structure Heard (client : Ulid) (moves : List Move) : Prop where
  /-- Who waits is a caller of the pool in the table, once, and of no other pool. The table has had
  this pool ever since the call began, and a sweep leaves it there. -/
  pool : ∀ t a w key, ((start client).run moves).waiting.get? t = some (a, w) →
    w.pool? = some key →
    (∃ p, ((start client).run moves).store.pools.get? key = some p ∧ p.callers.count t = 1 ∧
      ∀ time, (((start client).run moves).store.sweep time).pools.get? key = some p) ∧
    (∀ key', t ∈ ((start client).run moves).store.callers key' → key' = key) ∧
    (start client).Stays moves t key
  /-- Who waits and was not called had its last look after the last release, and was refused. -/
  looked : ∀ t a w key, ((start client).run moves).waiting.get? t = some (a, w) →
    w.pool? = some key → t ∉ ((start client).run moves).store.called key →
    (start client).Looked moves t key .short
  /-- Who was called can run, and looks at the pool next, be its time over or not. -/
  called : ∀ t a w key, ((start client).run moves).waiting.get? t = some (a, w) →
    w.pool? = some key → t ∈ ((start client).run moves).store.called key →
    ((start client).run moves).IsReady t ∧
      ∃ l, ((start client).run moves).check? (.look t) = some (t, key, l)
  /-- A release calls everybody who waits. -/
  calls : ∀ t a w key m, ((start client).run moves).waiting.get? t = some (a, w) →
    w.pool? = some key → ((start client).run moves).returns key m = true →
    t ∈ (((start client).run moves).step m).store.called key
  /-- Who is told that the permits are not there had its last look after the last release. -/
  refused : ∀ t key plan demand m, ((start client).run moves).note m =
      some (.answered t (.permits key plan demand) (.ok none)) →
    ∃ l, l ≠ .granted ∧ (start client).Looked (moves ++ [m]) t key l
  /-- After each release a caller looks again before it is told so. -/
  seen : ∀ before after t key plan demand m, moves = before ++ .giveBack key :: after →
    ((start client).run before).returns key (.giveBack key) = true →
    ((start client).run moves).note m =
      some (.answered t (.permits key plan demand) (.ok none)) →
    ∃ mid m' rest l, after ++ [m] = mid ++ m' :: rest ∧ l ≠ .granted ∧
      ((start client).run (before ++ .giveBack key :: mid)).check? m' = some (t, key, l)
  /-- From here on the parts of the looks and of the releases at a key may take turns as well. -/
  parts : ∀ key plan parts, ((((start client).run moves).weave key plan).run parts).Heard

/-- After every run, no caller of a pool has missed a release. -/
theorem run_heard (moves : List Move) : Heard client moves := by
  have ha := run_attended client moves
  refine ⟨?pool, ?looked, ?called, ?calls, ?refused, ?seen, ?parts⟩
  case pool =>
    intro t a w key hg hw
    have ht := (ha.mem_of_get? hg key).2 hw
    obtain ⟨p, hp, -⟩ := Store.exists_of_mem_ofPool ht
    have hcallers : ((start client).run moves).store.callers key = p.callers :=
      Store.ofPool_of_get? hp
    refine ⟨⟨p, hp, ?_, fun time => (Store.get?_sweep ht).trans hp⟩, fun key' hmem => ?_,
      run_stays moves hg hw⟩
    · exact List.count_eq_one_of_mem (hcallers ▸ ha.nodup key) (hcallers ▸ ht)
    · exact Option.some.inj (((ha.mem_of_get? hg key').1 hmem).symm.trans hw)
  case looked => exact fun t a w key hg hw ht => run_looked moves hg hw ht
  case called =>
    intro t a w key hg hw ht
    obtain ⟨plan, n, deadline, rfl⟩ := Waiting.pool?_eq_some.1 hw
    exact ⟨⟨a, _, hg, .inl (run_woken moves hg hw ht)⟩, _, check?_look hg ht⟩
  case calls =>
    intro t a w key m hg hw hr
    obtain ⟨rfl, -⟩ := returns_iff.1 hr
    exact (called_step_iff ha hg (by rintro ⟨⟩) (by rintro ⟨⟩)).2 (.inr ⟨hw, hr⟩)
  case refused => exact fun t key plan demand m h => run_refused moves h
  case seen =>
    intro before after t key plan demand m hmoves hr h
    obtain ⟨l, hl, hlooked⟩ := run_refused moves h
    have hmoves' : moves ++ [m] = before ++ .giveBack key :: (after ++ [m]) := by
      rw [hmoves, List.append_assoc, List.cons_append]
    obtain ⟨mid, m', rest, he, hcheck⟩ := hlooked.after hmoves' hr
    exact ⟨mid, m', rest, l, he, hl, hcheck⟩
  case parts => exact fun key plan parts => (weave_heard ha key plan).run parts

/-- A newcomer is faster than the caller that a release called, who then waits for the next one. -/
example :
    let ask (wait : UInt64) : Move := .begin (.permits "k" ⟨1, .ofMillis 1000⟩ ⟨1, .ofMillis wait⟩)
    let s := (start ⟨0⟩).run [ask 0, ask 500, .giveBack "k", ask 0]
    s.store.called "k" = [1] ∧ s.check? (.look 1) = some (1, "k", .short) ∧
      (s.step (.look 1)).store.called "k" = [] ∧
      ((s.step (.look 1)).step (.giveBack "k")).store.called "k" = [1] := by
  decide

end

end Traffic

end Turnstile.Local
