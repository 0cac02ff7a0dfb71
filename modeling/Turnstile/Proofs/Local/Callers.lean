import Mathlib.Data.List.Perm.Basic
import Turnstile.Proofs.Local.Conservation

/-!
# Who waits at a pool

A pool lists its callers, those in its line and those that were called and have not tried again.
What one attempt does to these lists is the same at every look: the attempt is off all of them, and
on that of the pool it waits for from then on, if any (`Store.Settles`).
-/

namespace Turnstile.Local

/-- The pool whose permits an attempt waits for. -/
def Waiting.pool? : Waiting → Option String
  | permits key _ _ _ => some key
  | _ => none

def Progress.pool? : Progress → Option String
  | done _ => none
  | waiting w => w.pool?

namespace Pool

variable {p : Pool} {plan : PoolPlan} {n now : Nat} {t : Ticket}

/-- Those that were called, and after them the line. -/
def callers (p : Pool) : List Ticket := p.called ++ p.line

theorem isAwaited_iff : p.isAwaited = true ↔ p.callers ≠ [] := by
  cases hl : p.line <;> cases hc : p.called <;> simp [isAwaited, callers, hl, hc]

theorem callers_eq_nil (h : p.isAwaited = false) : p.callers = [] := by
  by_contra hne
  rw [isAwaited_iff.2 hne] at h
  cases h

@[simp] theorem callers_reshape : (p.reshape plan now).callers = p.callers := by
  unfold reshape
  dsimp only
  split <;> rfl

@[simp] theorem callers_take : (p.take plan n now).1.callers = p.callers := by
  unfold take
  dsimp only
  split
  · exact callers_reshape
  · split
    · exact callers_reshape
    · exact callers_reshape

@[simp] theorem callers_giveBack : (p.giveBack now).1.callers = p.callers := by
  unfold giveBack
  split
  · rfl
  · exact List.append_nil _

@[simp] theorem callers_join : (p.join t).callers = p.callers ++ [t] :=
  (List.append_assoc ..).symm

theorem callers_leave (h : p.callers.Nodup) :
    (p.leave t).callers = p.callers.filter (· != t) := by
  unfold callers leave at *
  dsimp only
  rw [List.filter_append, (List.nodup_append.1 h).1.erase_eq_filter,
    (List.nodup_append.1 h).2.1.erase_eq_filter]

end Pool

namespace Store

variable {s s' : Store} {t : Ticket} {now n deadline : Nat} {key : String} {plan : PoolPlan}
  {a : Attempt} {w : Waiting} {at? : Option String} {p : Pool}

/-- Those who wait at the pool of the key. -/
def callers (s : Store) (key : String) : List Ticket := s.ofPool key [] Pool.callers

/-- The attempt `t` is off every list of callers, but on that of `at?`. -/
def Settles (s s' : Store) (t : Ticket) (at? : Option String) : Prop :=
  ∀ key, (s'.callers key).Perm
    ((s.callers key).filter (· != t) ++ if at? = some key then [t] else [])

theorem filter_callers (h : t ∉ s.callers key) : (s.callers key).filter (· != t) = s.callers key :=
  List.filter_eq_self.2 fun u hu => by
    have hne : u ≠ t := fun he => h (he ▸ hu)
    simpa using hne

theorem Settles.of_pools (hp : s'.pools = s.pools) (ht : ∀ key, t ∉ s.callers key) :
    Settles s s' t none := by
  intro key
  have hc : s'.callers key = s.callers key := ofPool_congr hp
  rw [hc, filter_callers (ht key)]
  simp

/-- Who is refused permits for now joins the line. -/
theorem callers_tryPermits (key' : String) :
    (s.tryPermits t now key plan n deadline).1.callers key' = s.callers key' ++
      if (s.tryPermits t now key plan n deadline).2.pool? = some key' then [t] else [] := by
  obtain ⟨⟨p, l⟩, hr⟩ : ∃ r, (s.poolFor key plan now).take plan n now = r := ⟨_, rfl⟩
  have hp : p.callers = s.callers key := by
    have htake := @Pool.callers_take (s.poolFor key plan now) plan n now
    rw [hr] at htake
    exact htake.trans (ofPool_poolFor rfl)
  have htake : s.takePermits key plan n now = ({ s with pools := s.pools.insert key p }, l) := by
    unfold takePermits
    unfold poolFor at hr
    simp only [hr]
  have hleft : ({ s with pools := s.pools.insert key p } : Store).callers key' = s.callers key' := by
    refine (ofPool_insert key').trans ?_
    split
    · rename_i hk
      rw [hp, hk]
    · rfl
  unfold tryPermits
  rw [htake]
  cases l with
  | granted => exact hleft.trans (List.append_nil _).symm
  | impossible => exact hleft.trans (List.append_nil _).symm
  | short =>
    dsimp only
    split
    · exact hleft.trans (List.append_nil _).symm
    · have hget : (s.pools.insert key p).get? key = some p := by rw [Table.get?_insert, if_pos rfl]
      rw [show (s.pools.insert key p).modify key (·.join t) =
        (s.pools.insert key p).insert key (p.join t) by simp [Table.modify, hget]]
      show ({ ({ s with pools := s.pools.insert key p } : Store) with
        pools := (s.pools.insert key p).insert key (p.join t) } : Store).callers key' = _
      refine (ofPool_insert key').trans ?_
      by_cases hk : key' = key
      · subst hk
        simp [hp, Progress.pool?, Waiting.pool?]
      · rw [if_neg hk]
        refine hleft.trans ?_
        simp [Ne.symm hk, Progress.pool?, Waiting.pool?]

theorem tryPermits_settles (ht : ∀ key, t ∉ s.callers key) :
    Settles s (s.tryPermits t now key plan n deadline).1 t
      (s.tryPermits t now key plan n deadline).2.pool? := by
  intro key'
  rw [callers_tryPermits, filter_callers (ht key')]

/-- The callers of every pool are those that `P` says, each of them once. -/
structure Attends (P : Ticket → String → Prop) (s : Store) : Prop where
  nodup : ∀ key, (s.callers key).Nodup
  mem : ∀ key t, t ∈ s.callers key ↔ P t key

namespace Attends

variable {P P' : Ticket → String → Prop}

theorem congr (h : Attends P s) (hc : ∀ key, s'.callers key = s.callers key) : Attends P s' :=
  ⟨fun key => hc key ▸ h.nodup key, fun key t => hc key ▸ h.mem key t⟩

/-- One attempt settles, and `P` is right about it and as before about all others. -/
theorem settles (h : Attends P s) (hs : Settles s s' t at?) (hnew : ∀ key, P' t key ↔ at? = some key)
    (hold : ∀ u key, u ≠ t → (P' u key ↔ P u key)) : Attends P' s' := by
  have hmem : ∀ key u, u ∈ s'.callers key ↔
      u ∈ s.callers key ∧ u ≠ t ∨ u = t ∧ at? = some key := by
    intro key u
    rw [(hs key).mem_iff, List.mem_append, List.mem_filter]
    by_cases hat : at? = some key <;> simp [hat]
  constructor
  · intro key
    refine (hs key).nodup_iff.2 (List.nodup_append.2 ⟨(h.nodup key).filter _, ?_, ?_⟩)
    · split <;> simp
    · intro u hu v hv
      obtain ⟨-, hne⟩ := List.mem_filter.1 hu
      have hvt : v = t := by
        split at hv
        · exact List.mem_singleton.1 hv
        · cases hv
      rw [hvt]
      simpa using hne
  · intro key u
    rw [hmem]
    by_cases hu : u = t
    · subst hu
      simp [hnew key]
    · rw [hold u key hu, ← h.mem]
      simp [hu]

end Attends

/-! ## Attempts for something else -/

theorem tryToken_pool? {bucket : String} {rate : RatePlan} :
    (s.tryToken t now bucket rate deadline).2.pool? = none := by
  unfold tryToken
  split
  · rfl
  · split <;> rfl

theorem enterLatch_pool? {name : String} {owner : Option Ulid} :
    (s.enterLatch t name owner deadline).2.pool? = none := by
  unfold enterLatch
  dsimp only
  split <;> rfl

theorem begin_pool? (ha : ∀ key plan demand, a ≠ .permits key plan demand) :
    (s.begin t now a).2.pool? = none := by
  unfold begin
  split
  · rfl
  · cases a with
    | permits key plan demand => exact absurd rfl (ha key plan demand)
    | token => exact tryToken_pool?
    | lock key u wait =>
      simp only [start, tryLatch]
      split
      · split <;> rfl
      · exact enterLatch_pool?
    | named key wait =>
      have he : (s.enterLatch t (lockName key) none (now + wait.nanos)).2.pool? = none :=
        enterLatch_pool?
      simp only [start]
      split
      · rename_i s' w hs
        split
        · rfl
        · rwa [hs] at he
      · exact he

theorem resume_pool? (hw : w.pool? = none) : (s.resume t now w).2.2.pool? = none := by
  cases w with
  | permits => cases hw
  | token =>
    simp only [resume]
    split
    · exact tryToken_pool?
    · rfl
  | turn =>
    simp only [resume]
    split
    · rfl
    · split <;> rfl

/-! ## The looks of an attempt -/

theorem begin_settles (ht : ∀ key, t ∉ s.callers key) :
    Settles s (s.begin t now a).1 t (s.begin t now a).2.pool? := by
  by_cases ha : ∃ key plan demand, a = .permits key plan demand
  · obtain ⟨key, plan, demand, rfl⟩ := ha
    unfold begin
    split
    · exact .of_pools rfl ht
    · exact tryPermits_settles ht
  · have ha : ∀ key plan demand, a ≠ .permits key plan demand :=
      fun key plan demand he => ha ⟨key, plan, demand, he⟩
    rw [begin_pool? ha]
    exact .of_pools (begin_pools ha) ht

theorem Settles.leave (hp : s.pools.get? key = some p) (hn : ∀ key, (s.callers key).Nodup)
    (ht : ∀ key', t ∈ s.callers key' → key' = key) :
    Settles s { s with pools := s.pools.insert key (p.leave t) } t none := by
  intro key'
  have hcallers : s.callers key = p.callers := ofPool_of_get? hp
  have hpn : p.callers.Nodup := hcallers ▸ hn key
  have hleave : ({ s with pools := s.pools.insert key (p.leave t) } : Store).callers key' =
      if key' = key then (p.leave t).callers else s.callers key' := ofPool_insert key'
  rw [hleave]
  by_cases hk : key' = key
  · subst hk
    rw [if_pos rfl, Pool.callers_leave hpn, hcallers]
    simp
  · rw [if_neg hk, filter_callers fun hm => hk (ht key' hm)]
    simp

theorem Settles.trans_tryPermits (h : Settles s s' t none) :
    Settles s (s'.tryPermits t now key plan n deadline).1 t
      (s'.tryPermits t now key plan n deadline).2.pool? := by
  intro key'
  have hperm := h key'
  rw [if_neg nofun, List.append_nil] at hperm
  rw [callers_tryPermits]
  exact hperm.append_right _

/-- Who stays on its list is off it and on it again. -/
theorem Settles.stay (hn : (s.callers key).Nodup) (ht : t ∈ s.callers key)
    (hkey : ∀ key', t ∈ s.callers key' → key' = key) : Settles s s t (some key) := by
  intro key'
  by_cases hk : key' = key
  · subst hk
    have herase := List.perm_cons_erase ht
    rw [hn.erase_eq_filter] at herase
    rw [if_pos rfl]
    exact herase.trans (List.perm_append_singleton t _).symm
  · have hne : some key ≠ some key' := fun he => hk (Option.some.inj he).symm
    rw [if_neg hne, filter_callers fun hm => hk (hkey key' hm), List.append_nil]

/-- Who waits looks again: it is off the list, or on it as before. -/
theorem resume_settles (hn : ∀ key, (s.callers key).Nodup)
    (ht : ∀ key, t ∈ s.callers key ↔ w.pool? = some key) :
    Settles s (s.resume t now w).1 t (s.resume t now w).2.2.pool? := by
  by_cases hw : w.pool? = none
  · rw [resume_pool? hw]
    refine .of_pools (resume_pools ?_) fun key hm => ?_
    · rintro key plan n deadline rfl
      cases hw
    · rw [(ht key).1 hm] at hw
      cases hw
  · cases w with
    | token => exact absurd rfl hw
    | turn => exact absurd rfl hw
    | permits key plan n deadline =>
      have hkey : ∀ key', t ∈ s.callers key' → key' = key := by
        intro key' hm
        have he : some key = some key' := (ht key').1 hm
        exact (Option.some.inj he).symm
      have hmem : t ∈ s.callers key := (ht key).2 rfl
      unfold resume
      dsimp only
      split
      · rename_i hnone
        obtain ⟨p, hp, -⟩ := exists_of_mem_ofPool hmem
        cases hnone.symm.trans hp
      · rename_i p hp
        have hleave := Settles.leave (t := t) hp hn hkey
        split
        · exact hleave.trans_tryPermits
        · split
          · exact hleave
          · exact .stay (hn key) hmem hkey

theorem cancel_settles (hn : ∀ key, (s.callers key).Nodup)
    (ht : ∀ key, t ∈ s.callers key ↔ w.pool? = some key) : Settles s (s.cancel t w).1 t none := by
  have hgone : w.pool? = none → ∀ key, t ∉ s.callers key := by
    intro hw key hm
    rw [(ht key).1 hm] at hw
    cases hw
  cases w with
  | token => exact .of_pools rfl (hgone rfl)
  | turn => exact .of_pools pools_leaveLatch (hgone rfl)
  | permits key plan n deadline =>
    obtain ⟨p, hp, -⟩ := exists_of_mem_ofPool ((ht key).2 rfl)
    simp only [cancel, Table.modify, hp]
    refine Settles.leave hp hn fun key' hm => ?_
    have he : some key = some key' := (ht key').1 hm
    exact (Option.some.inj he).symm

/-! ## Others -/

theorem callers_giveBack (key' : String) : (s.giveBack key now).1.callers key' = s.callers key' := by
  cases hp : s.pools.get? key with
  | none =>
    unfold giveBack
    rw [hp]
  | some p =>
    have hpools := @giveBack_pools s now key p hp key'
    by_cases hk : key' = key
    · subst hk
      rw [if_pos rfl] at hpools
      refine (ofPool_of_get? hpools).trans ?_
      exact Pool.callers_giveBack.trans (ofPool_of_get? hp).symm
    · rw [if_neg hk] at hpools
      exact ofPool_of_get?_eq hpools

theorem callers_sweep : (s.sweep now).callers key = s.callers key :=
  ofPool_sweep fun _ hp => Pool.callers_eq_nil hp

end Store

end Turnstile.Local
