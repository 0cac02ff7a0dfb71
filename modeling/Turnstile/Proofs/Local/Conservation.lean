import Turnstile.Proofs.Local.Endings

/-!
# No permit is lost

The permits of a pool that are not available are out, and who gives back what is out finds the pool
full again. With one capacity for all callers the two add up to it. When callers name different
capacities the sum may exceed the capacity, as in `Turnstile.Proofs.Local.Overdraft`, but never
falls short of it. `Shift` lists all a step can do to one pool; what holds of every pool is kept
by each of its cases.
-/

namespace Turnstile.Local

namespace Pool

variable {p p' : Pool} {plan : PoolPlan} {n now c : Nat} {t : Ticket}

/-- Every permit of the capacity is available or out. -/
structure Covered (p : Pool) : Prop where
  le : p.available ≤ p.capacity
  covers : p.capacity ≤ p.available + p.outstanding.sum

/-- The pool has the capacity `c`, and what is available and out adds up to it. -/
structure Exact (c : Nat) (p : Pool) : Prop where
  capacity : p.capacity = c
  sum : p.available + p.outstanding.sum = c

/-- Nobody took a permit between `p` and `p'`: acquisitions end at most, and the permits that are
not available do not become more. -/
structure Spared (p p' : Pool) : Prop where
  outstanding : p'.outstanding <:+ p.outstanding
  available : p.available + p'.capacity ≤ p'.available + p.capacity

def IsFull (p : Pool) : Prop := p.outstanding = [] ∧ p.available = p.capacity

namespace Alike

variable (h : Alike p p')
include h

theorem covered (hp : p.Covered) : p'.Covered := by
  constructor
  · rw [h.available, h.capacity]
    exact hp.le
  · rw [h.available, h.capacity, h.outstanding]
    exact hp.covers

theorem exact (hp : p.Exact c) : p'.Exact c := by
  constructor
  · rw [h.capacity]
    exact hp.capacity
  · rw [h.available, h.outstanding]
    exact hp.sum

theorem spared : Spared p p' where
  outstanding := h.outstanding ▸ List.suffix_rfl
  available := Nat.le_of_eq (by rw [h.available, h.capacity])

end Alike

theorem Spared.trans {q : Pool} (h : Spared p p') (h' : Spared p' q) : Spared p q where
  outstanding := h'.outstanding.trans h.outstanding
  available := by
    have h₁ := h.available
    have h₂ := h'.available
    omega

theorem Spared.isFull (h : Spared p p') (hp : p.IsFull) (hc : p'.Covered) : p'.IsFull := by
  have ho : p'.outstanding = [] := List.suffix_nil.1 (hp.1 ▸ h.outstanding)
  have hcov := hc.covers
  rw [ho, List.sum_nil] at hcov
  exact ⟨ho, Nat.le_antisymm hc.le hcov⟩

theorem Covered.isFull (h : p.Covered) (ho : p.outstanding = []) : p.IsFull := by
  have hc := h.covers
  rw [ho, List.sum_nil] at hc
  exact ⟨ho, Nat.le_antisymm h.le hc⟩

theorem covered_full : (full plan now).Covered := ⟨Nat.le_refl _, Nat.le_add_right ..⟩

theorem exact_full : (full plan now).Exact plan.capacity.toNat := ⟨rfl, Nat.add_zero _⟩

/-! ## A new capacity -/

theorem reshape_capacity : (p.reshape plan now).capacity = plan.capacity.toNat := by
  unfold reshape
  dsimp only
  split <;> rfl

theorem reshape_outstanding : (p.reshape plan now).outstanding <:+ p.outstanding := by
  unfold reshape
  dsimp only
  split
  · exact List.nil_suffix
  · exact List.suffix_rfl

/-- A capacity that shrinks below what is out leaves nothing available, and then what is out
covers it. -/
theorem covered_reshape (h : p.Covered) : (p.reshape plan now).Covered := by
  have hle := h.le
  have hcov := h.covers
  unfold reshape
  dsimp only
  split
  · exact ⟨Nat.le_refl _, Nat.le_add_right ..⟩
  · constructor
    · dsimp only
      omega
    · dsimp only
      omega

theorem spared_reshape (h : p.Covered) : Spared p (p.reshape plan now) where
  outstanding := reshape_outstanding
  available := by
    have hle := h.le
    unfold reshape
    dsimp only
    split
    · dsimp only
      omega
    · dsimp only
      omega

theorem exact_reshape (h : p.Exact c) (hc : plan.capacity.toNat = c) :
    (p.reshape plan now).Exact c := by
  have hcap := h.capacity
  have hsum := h.sum
  refine ⟨reshape_capacity.trans hc, ?_⟩
  unfold reshape
  dsimp only
  split
  · exact hc
  · dsimp only
    omega

/-! ## Looks and releases -/

theorem take_of_ne_granted (hg : (p.take plan n now).2 ≠ .granted) :
    (p.take plan n now).1 = p.reshape plan now := by
  unfold take at hg ⊢
  dsimp only at hg ⊢
  split
  · rfl
  · rename_i hcap
    rw [if_neg hcap] at hg
    split
    · rename_i ha
      rw [if_pos ha] at hg
      exact absurd rfl hg
    · rfl

/-- A look that is granted takes its permits, and nothing else, from a pool that has them. -/
theorem take_of_granted (hg : (p.take plan n now).2 = .granted) :
    n ≤ (p.reshape plan now).available ∧
      (p.take plan n now).1.capacity = (p.reshape plan now).capacity ∧
      (p.take plan n now).1.available = (p.reshape plan now).available - n ∧
      (p.take plan n now).1.outstanding = n :: (p.reshape plan now).outstanding := by
  unfold take at hg ⊢
  dsimp only at hg ⊢
  split at hg
  · cases hg
  · rename_i hcap
    rw [if_neg hcap]
    split at hg
    · rename_i ha
      rw [if_pos ha]
      exact ⟨ha, rfl, rfl, rfl⟩
    · cases hg

theorem covered_take (h : p.Covered) : (p.take plan n now).1.Covered := by
  have hr : (p.reshape plan now).Covered := covered_reshape h
  by_cases hg : (p.take plan n now).2 = .granted
  · obtain ⟨hn, hc, ha, ho⟩ := take_of_granted hg
    have hle := hr.le
    have hcov := hr.covers
    constructor
    · rw [ha, hc]
      omega
    · rw [ha, hc, ho, List.sum_cons]
      omega
  · rw [take_of_ne_granted hg]
    exact hr

theorem exact_take (h : p.Exact c) (hc : plan.capacity.toNat = c) :
    (p.take plan n now).1.Exact c := by
  have hr : (p.reshape plan now).Exact c := exact_reshape h hc
  by_cases hg : (p.take plan n now).2 = .granted
  · obtain ⟨hn, hcap, ha, ho⟩ := take_of_granted hg
    have hsum := hr.sum
    constructor
    · rw [hcap, hr.capacity]
    · rw [ha, ho, List.sum_cons]
      omega
  · rw [take_of_ne_granted hg]
    exact hr

/-- A look that is not granted takes nothing. -/
theorem spared_take (h : p.Covered) (hg : (p.take plan n now).2 ≠ .granted) :
    Spared p (p.take plan n now).1 := by
  rw [take_of_ne_granted hg]
  exact spared_reshape h

theorem giveBack_nil (ho : p.outstanding = []) : p.giveBack now = (p, []) := by
  unfold giveBack
  rw [ho]

theorem giveBack_cons {rest : List Nat} (ho : p.outstanding = n :: rest) :
    (p.giveBack now).1.capacity = p.capacity ∧
      (p.giveBack now).1.available = min p.capacity (p.available + n) ∧
      (p.giveBack now).1.outstanding = rest := by
  unfold giveBack
  rw [ho]
  exact ⟨rfl, rfl, rfl⟩

theorem giveBack_capacity : (p.giveBack now).1.capacity = p.capacity := by
  cases ho : p.outstanding with
  | nil => rw [giveBack_nil ho]
  | cons n rest => exact (giveBack_cons ho).1

theorem giveBack_outstanding : (p.giveBack now).1.outstanding = p.outstanding.tail := by
  cases ho : p.outstanding with
  | nil =>
    rw [giveBack_nil ho]
    exact ho
  | cons n rest => exact (giveBack_cons ho).2.2

theorem covered_giveBack (h : p.Covered) : (p.giveBack now).1.Covered := by
  cases ho : p.outstanding with
  | nil =>
    rw [giveBack_nil ho]
    exact h
  | cons n rest =>
    obtain ⟨hc, ha, hr⟩ := @giveBack_cons p n now rest ho
    have hcov := h.covers
    rw [ho, List.sum_cons] at hcov
    constructor
    · rw [hc, ha]
      exact Nat.min_le_left ..
    · rw [hc, ha, hr]
      omega

theorem exact_giveBack (h : p.Exact c) : (p.giveBack now).1.Exact c := by
  cases ho : p.outstanding with
  | nil =>
    rw [giveBack_nil ho]
    exact h
  | cons n rest =>
    obtain ⟨hc, ha, hr⟩ := @giveBack_cons p n now rest ho
    have hcap := h.capacity
    have hsum := h.sum
    rw [ho, List.sum_cons] at hsum
    constructor
    · rw [hc, hcap]
    · rw [ha, hr]
      omega

theorem spared_giveBack (h : p.Covered) : Spared p (p.giveBack now).1 := by
  have hle := h.le
  refine ⟨giveBack_outstanding ▸ List.tail_suffix _, ?_⟩
  cases ho : p.outstanding with
  | nil =>
    exact Nat.le_of_eq (by rw [giveBack_nil ho])
  | cons n rest =>
    obtain ⟨hc, ha, -⟩ := @giveBack_cons p n now rest ho
    rw [hc, ha]
    omega

end Pool

namespace Store

variable {s : Store} {t : Ticket} {now n deadline : Nat} {key : String} {plan : PoolPlan}

theorem tryPermits_of_granted (h : ((s.poolFor key plan now).take plan n now).2 = .granted) :
    (s.tryPermits t now key plan n deadline).2 = .done (.ok (some t)) := by
  have hl : (s.takePermits key plan n now).2 = .granted := h
  unfold tryPermits
  split
  · rfl
  · rename_i hs
    rw [hs] at hl
    cases hl
  · rename_i hs
    rw [hs] at hl
    cases hl

/-- Nothing is given back to a pool of which nothing is out, or to no pool. -/
theorem giveBack_idle (h : ∀ p, s.pools.get? key = some p → p.outstanding = []) :
    s.giveBack key now = (s, []) := by
  unfold giveBack
  split
  · rename_i p hp
    rw [Pool.giveBack_nil (h p hp)]
    dsimp only
    rw [Table.insert_of_get? hp]
  · rfl

theorem giveBack_pools {p : Pool} (hp : s.pools.get? key = some p) (key' : String) :
    (s.giveBack key now).1.pools.get? key' =
      if key' = key then some (p.giveBack now).1 else s.pools.get? key' := by
  unfold giveBack
  rw [hp]
  exact Table.get?_insert ..

end Store

namespace Traffic

variable {s s' : Traffic} {key : String} {t : Ticket} {a : Attempt} {w : Waiting} {m : Move}
  {o o' : Option Pool} {p p' : Pool} {log : List Entry}

/-- The permits that an entry tells to be taken from a pool. -/
def Entry.took? (key : String) : Entry → Option Nat
  | answered _ (.permits k _ demand) (.ok (some _)) =>
    if k = key then some demand.permits.toNat else none
  | _ => none

/-- The permits that were taken from a pool, latest first. -/
def takings (key : String) (log : List Entry) : List Nat :=
  (log.filterMap (Entry.took? key)).reverse

/-- Every call for permits of `key` whose input is good names the capacity `c`. -/
def Uniform (log : List Entry) (key : String) (c : Nat) : Prop :=
  ∀ t plan demand, .arrived t (.permits key plan demand) ∈ log →
    (Attempt.permits key plan demand).check = .ok () → plan.capacity.toNat = c

/-- A move grants nothing from the pool of `key`. -/
def Withholds (s : Traffic) (key : String) (m : Move) : Prop :=
  ∀ t plan demand g, s.note m ≠ some (.answered t (.permits key plan demand) (.ok (some g)))

/-! ## One step and one pool -/

/-- A look at the pool of `key`. -/
def Entry.isAsk (key : String) : Entry → Bool
  | asked k _ _ => k = key
  | _ => false

/-- A move looks at the pool of `key`, be the answer what it may, or gives something back to it. -/
def touches (s : Traffic) (key : String) : Move → Bool
  | .begin a => (s.firstAsk a).any (Entry.isAsk key)
  | .look t =>
    match s.waiting.get? t with
    | some (_, w) => (s.nextAsk t w).any (Entry.isAsk key)
    | none => false
  | .giveBack k => k = key && (s.store.pools.get? key).any fun p => !p.outstanding.isEmpty
  | _ => false

/-- All that a move can do to the pool of `key`. -/
inductive Shift (s : Traffic) (key : String) (m : Move) : Option Pool → Option Pool → Prop
  | gone {o : Option Pool} : Shift s key m o none
  | alike {p p' : Pool} (h : p.Alike p') : Shift s key m (some p) (some p')
  | back {p : Pool} (ht : p.outstanding ≠ [] → s.touches key m = true) :
      Shift s key m (some p) (some (p.giveBack s.now).1)
  | looked {o : Option Pool} {p p' : Pool} {t : Ticket} {plan : PoolPlan} {demand : PoolDemand}
      (hp : (o.getD (.full plan s.now)).Alike p)
      (harr : .arrived t (.permits key plan demand) ∈ (s.step m).log)
      (hcheck : (Attempt.permits key plan demand).check = .ok ())
      (hgrant : (p.take plan demand.permits.toNat s.now).2 = .granted →
        s.note m = some (.answered t (.permits key plan demand) (.ok (some t))))
      (hp' : (p.take plan demand.permits.toNat s.now).1.Alike p')
      (ht : s.touches key m = true) : Shift s key m o (some p')

theorem Shift.refl (o : Option Pool) : Shift s key m o o := by
  cases o with
  | none => exact .gone
  | some p => exact .alike .refl

theorem Shift.of_eq (h : o' = o) : Shift s key m o o' := by
  subst h
  exact .refl _

theorem shift_begin (a : Attempt) :
    Shift s key (.begin a) (s.store.pools.get? key) ((s.step (.begin a)).store.pools.get? key) := by
  have hst : (s.step (.begin a)).store = (s.store.begin s.tickets s.now a).1 := settle_store ..
  rw [hst]
  by_cases ha : ∃ k plan demand, a = .permits k plan demand
  · obtain ⟨k, plan, demand, rfl⟩ := ha
    cases hc : (Attempt.permits k plan demand).check with
    | error e =>
      refine .of_eq ?_
      simp [Store.begin, hc]
    | ok u =>
      have hb := @Store.begin_permits_of_check s.store s.tickets s.now k plan demand hc
      obtain ⟨p, hp, hpools⟩ := @Store.tryPermits_pools s.store s.tickets s.now
        demand.permits.toNat (s.now + demand.wait.nanos) k plan
      rw [hb, hpools]
      split
      · rename_i hk
        subst hk
        have ht : s.touches key (.begin (.permits key plan demand)) = true := by
          simp [touches, firstAsk, hc, Entry.isAsk]
        refine .looked .refl arrived_mem_begin hc (fun hg => ?_) hp ht
        have hd := @Store.tryPermits_of_granted _ s.tickets _ _ (s.now + demand.wait.nanos) _ _ hg
        unfold note
        dsimp only
        rw [hb, hd]
        rfl
      · exact .refl _
  · refine .of_eq (congrArg (·.get? key) (Store.begin_pools fun k plan demand he => ?_))
    exact ha ⟨k, plan, demand, he⟩

theorem shift_look (h : Known s) (hg : s.waiting.get? t = some (a, w)) :
    Shift s key (.look t) (s.store.pools.get? key) ((s.step (.look t)).store.pools.get? key) := by
  have hst : (s.step (.look t)).store = (s.store.resume t s.now w).1 := by
    simp only [Traffic.step, hg]
    exact settle_store ..
  obtain ⟨harr, hc, hw⟩ := h t a w hg
  rw [hst]
  cases w with
  | token => exact .of_eq (congrArg (·.get? key) (Store.resume_pools fun _ _ _ _ he => by cases he))
  | turn => exact .of_eq (congrArg (·.get? key) (Store.resume_pools fun _ _ _ _ he => by cases he))
  | permits k plan n dl =>
    obtain ⟨demand, rfl, rfl⟩ := hw
    cases hp : s.store.pools.get? k with
    | none =>
      refine .of_eq ?_
      simp [Store.resume, hp]
    | some p =>
      obtain ⟨st, hleft⟩ :
          ∃ st : Store, { s.store with pools := s.store.pools.insert k (p.leave t) } = st := ⟨_, rfl⟩
      have hpools : ∀ key, st.pools.get? key =
          if key = k then some (p.leave t) else s.store.pools.get? key := by
        intro key
        rw [← hleft]
        exact Table.get?_insert ..
      have hleave : Shift s key (.look t) (s.store.pools.get? key) (st.pools.get? key) := by
        rw [hpools]
        split
        · rename_i hk
          rw [hk, hp]
          exact .alike Pool.alike_leave
        · exact .refl _
      by_cases hcall : t ∈ p.called
      · have hr : s.store.resume t s.now (.permits k plan demand.permits.toNat dl) =
            ((st.tryPermits t s.now k plan demand.permits.toNat dl).1, [],
              (st.tryPermits t s.now k plan demand.permits.toNat dl).2) := by
          simp [Store.resume, hp, hcall, hleft]
        obtain ⟨p', hp', hpools'⟩ := @Store.tryPermits_pools st t s.now demand.permits.toNat dl k plan
        rw [hr, hpools']
        split
        · rename_i hk
          subst hk
          have hpool : st.poolFor key plan s.now = p.leave t := by
            unfold Store.poolFor
            rw [hpools, if_pos rfl]
            rfl
          rw [hpool] at hp'
          have hlook : ((some p).getD (.full plan s.now)).Alike (p.leave t) := Pool.alike_leave
          have ht : s.touches key (.look t) = true := by
            simp [touches, hg, nextAsk, hp, hcall, Entry.isAsk]
          rw [hp]
          refine .looked hlook (log_subset harr) hc (fun hgrant => ?_) hp' ht
          have hd := @Store.tryPermits_of_granted st t s.now demand.permits.toNat dl key plan
            (hpool ▸ hgrant)
          simp only [note, hg]
          rw [hr, hd]
          rfl
        · exact hleave
      · by_cases hdue : (Waiting.permits k plan demand.permits.toNat dl).isDue s.now = true
        · have hr : (s.store.resume t s.now (.permits k plan demand.permits.toNat dl)).1 = st := by
            simp [Store.resume, hp, hcall, hdue, hleft]
          rw [hr]
          exact hleave
        · refine .of_eq ?_
          simp [Store.resume, hp, hcall, hdue]

theorem shift_drop :
    Shift s key m (s.store.pools.get? key) ((s.drop t w).store.pools.get? key) := by
  show Shift s key m _ ((s.store.cancel t w).1.pools.get? key)
  cases w with
  | token => exact .refl _
  | turn => exact .of_eq (congrArg (·.get? key) Store.pools_leaveLatch)
  | permits k plan n dl =>
    simp only [Store.cancel, Table.modify]
    split
    · rename_i p hp
      rw [Table.get?_insert]
      split
      · rename_i hk
        rw [hk, hp]
        exact .alike Pool.alike_leave
      · exact .refl _
    · exact .refl _

theorem shift_giveBack (k : String) :
    Shift s key (.giveBack k) (s.store.pools.get? key) ((s.giveBack k).store.pools.get? key) := by
  show Shift s key _ _ ((s.store.giveBack k s.now).1.pools.get? key)
  cases hp : s.store.pools.get? k with
  | none =>
    rw [Store.giveBack_idle fun p hp' => by simp [hp] at hp']
    exact .refl _
  | some p =>
    rw [Store.giveBack_pools hp]
    split
    · rename_i hk
      rw [hk, hp]
      exact .back fun hout => by simpa [touches, hp] using hout
    · exact .refl _

theorem unlock_pools {k : String} {u : Ulid} : (s.store.unlock k u).1.pools = s.store.pools := by
  unfold Store.unlock
  split
  · split
    · exact Store.pools_leaveLatch
    · rfl
  · rfl

theorem shift_step (h : Known s) (m : Move) :
    Shift s key m (s.store.pools.get? key) ((s.step m).store.pools.get? key) := by
  cases m with
  | begin a => exact shift_begin a
  | look t =>
    cases hg : s.waiting.get? t with
    | none =>
      refine .of_eq ?_
      simp [Traffic.step, hg]
    | some x => exact shift_look h hg
  | drop t =>
    unfold Traffic.step
    dsimp only
    split
    · exact shift_drop
    · exact .refl _
  | unlock k u => exact .of_eq (congrArg (·.get? key) unlock_pools)
  | free k t =>
    show Shift s key _ _ ((s.free k t).store.pools.get? key)
    unfold Traffic.free
    split
    · exact .of_eq (congrArg (·.get? key) Store.pools_leaveLatch)
    · exact .refl _
  | giveBack k => exact shift_giveBack k
  | sweep time =>
    show Shift s key _ _ ((s.store.pools.retain _).get? key)
    rw [Table.get?_retain]
    cases s.store.pools.get? key with
    | none => exact .gone
    | some p =>
      unfold Option.filter
      dsimp only
      split
      · exact .refl _
      · exact .gone
  | pass millis =>
    obtain ⟨now, -, hpass⟩ := s.step_pass millis
    rw [hpass s rfl]
    exact .of_eq rfl

/-! ## What every step keeps -/

theorem of_getD {P : Pool → Prop} {q : Pool} (ho : ∀ p, o = some p → P p) (hq : P q) :
    P (o.getD q) := by
  cases o with
  | none => exact hq
  | some p => exact ho p rfl

theorem Shift.covered (h : Shift s key m o o') (ho : ∀ p, o = some p → p.Covered) :
    ∀ p, o' = some p → p.Covered := by
  rintro p' rfl
  cases h with
  | alike h => exact h.covered (ho _ rfl)
  | back => exact Pool.covered_giveBack (ho _ rfl)
  | looked hp harr hcheck hgrant hp' =>
    exact hp'.covered (Pool.covered_take (hp.covered (of_getD ho Pool.covered_full)))

theorem Shift.exact {c : Nat} (h : Shift s key m o o') (hu : Uniform (s.step m).log key c)
    (ho : ∀ p, o = some p → p.Exact c) : ∀ p, o' = some p → p.Exact c := by
  rintro p' rfl
  cases h with
  | alike h => exact h.exact (ho _ rfl)
  | back => exact Pool.exact_giveBack (ho _ rfl)
  | looked hp harr hcheck hgrant hp' =>
    have hc := hu _ _ _ harr hcheck
    exact hp'.exact (Pool.exact_take (hp.exact (of_getD ho (hc ▸ Pool.exact_full))) hc)

theorem took?_of_isQuiet {e : Entry} (h : e.IsQuiet) : e.took? key = none := by
  cases e with
  | answered => cases h
  | _ => rfl

theorem takings_step :
    takings key (s.step m).log =
      ((s.note m).toList.filterMap (Entry.took? key)).reverse ++ takings key s.log := by
  obtain ⟨quiet, hlog, hquiet⟩ := log_step s m
  have hq : quiet.filterMap (Entry.took? key) = [] :=
    List.filterMap_eq_nil_iff.2 fun e he => took?_of_isQuiet (hquiet e he)
  simp [takings, hlog, hq]

theorem Shift.taken (h : Shift s key m o o')
    (ho : ∀ p, o = some p → p.outstanding.Sublist (takings key s.log)) :
    ∀ p, o' = some p → p.outstanding.Sublist (takings key (s.step m).log) := by
  have hmore : (takings key s.log).Sublist (takings key (s.step m).log) := by
    rw [takings_step]
    exact List.sublist_append_right ..
  rintro p' rfl
  cases h with
  | alike h =>
    rw [h.outstanding]
    exact (ho _ rfl).trans hmore
  | back =>
    rw [Pool.giveBack_outstanding]
    exact ((List.tail_sublist _).trans (ho _ rfl)).trans hmore
  | @looked _ p _ t plan demand hp harr hcheck hgrant hp' =>
    have hout : p.outstanding.Sublist (takings key s.log) := by
      rw [hp.outstanding]
      exact of_getD ho (List.nil_sublist _)
    rw [hp'.outstanding]
    by_cases hg : (p.take plan demand.permits.toNat s.now).2 = .granted
    · obtain ⟨-, -, -, htake⟩ := Pool.take_of_granted hg
      have htook : takings key (s.step m).log = demand.permits.toNat :: takings key s.log := by
        rw [takings_step, hgrant hg]
        simp [Entry.took?]
      rw [htake, htook]
      exact (Pool.reshape_outstanding.sublist.trans hout).cons_cons _
    · rw [Pool.take_of_ne_granted hg]
      exact (Pool.reshape_outstanding.sublist.trans hout).trans hmore

/-- What a move that grants nothing leaves of a pool. A pool that is new is full. -/
theorem Shift.spared (h : Shift s key m o o') (ho : ∀ p, o = some p → p.Covered)
    (hw : s.Withholds key m) :
    ∀ p', o' = some p' → (∀ p, o = some p → p.Spared p') ∧ (o = none → p'.IsFull) := by
  have hcov := h.covered ho
  rintro p' rfl
  cases h with
  | alike h =>
    refine ⟨?_, nofun⟩
    rintro p ⟨⟩
    exact h.spared
  | back =>
    refine ⟨?_, nofun⟩
    rintro p ⟨⟩
    exact Pool.spared_giveBack (ho _ rfl)
  | @looked _ p₁ _ t plan demand hp harr hcheck hgrant hp' =>
    have hp₁ : p₁.Covered := hp.covered (of_getD ho Pool.covered_full)
    have htake : Pool.Spared p₁ p' := by
      refine (Pool.spared_take hp₁ fun hg => ?_).trans hp'.spared
      exact hw _ _ _ _ (hgrant hg)
    constructor
    · rintro p rfl
      exact hp.spared.trans htake
    · rintro rfl
      exact (hp.spared.trans htake).isFull ⟨rfl, rfl⟩ (hcov _ rfl)

/-! ## Every run -/

/-- The pools of a store that served any moves. -/
structure Kept (s : Traffic) : Prop where
  known : Known s
  covered : ∀ key p, s.store.pools.get? key = some p → p.Covered
  exact : ∀ key c, Uniform s.log key c → ∀ p, s.store.pools.get? key = some p → p.Exact c
  taken : ∀ key p, s.store.pools.get? key = some p → p.outstanding.Sublist (takings key s.log)

theorem Kept.start (client : Ulid) : Kept (start client) := ⟨.start client, nofun, nofun, nofun⟩

theorem Kept.step (h : Kept s) (m : Move) : Kept (s.step m) where
  known := h.known.step m
  covered key := (shift_step h.known m).covered (h.covered key)
  exact key c hu := (shift_step h.known m).exact hu
    (h.exact key c fun t plan demand harr => hu t plan demand (log_subset harr))
  taken key := (shift_step h.known m).taken (h.taken key)

theorem run_kept (client : Ulid) (moves : List Move) : Kept ((start client).run moves) :=
  run_induction (.start client) (fun _ m h => h.step m) moves

/-- Each release ends one acquisition, so that the pool is full after the last. -/
theorem run_giveBack (hp : s.store.pools.get? key = some p) (hc : p.Covered) :
    ∃ p', (s.run (List.replicate p.outstanding.length (.giveBack key))).store.pools.get? key =
      some p' ∧ p'.capacity = p.capacity ∧ p'.IsFull := by
  induction hn : p.outstanding.length generalizing s p with
  | zero => exact ⟨p, hp, rfl, hc.isFull (List.eq_nil_of_length_eq_zero hn)⟩
  | succ n ih =>
    have hp' : (s.step (.giveBack key)).store.pools.get? key = some (p.giveBack s.now).1 := by
      show (s.store.giveBack key s.now).1.pools.get? key = _
      rw [Store.giveBack_pools hp, if_pos rfl]
    have hlen : (p.giveBack s.now).1.outstanding.length = n := by
      rw [Pool.giveBack_outstanding, List.length_tail, hn]
      rfl
    obtain ⟨q, hq, hcap, hfull⟩ := ih hp' (Pool.covered_giveBack hc) hlen
    exact ⟨q, hq, hcap.trans Pool.giveBack_capacity, hfull⟩

theorem step_giveBack_idle (h : ∀ p, s.store.pools.get? key = some p → p.outstanding = []) :
    s.step (.giveBack key) = s := by
  show s.giveBack key = s
  unfold Traffic.giveBack
  rw [Store.giveBack_idle h]
  simp

structure Conserved (s : Traffic) : Prop where
  /-- Not more is available than the capacity, and not less than what is not out. -/
  covered : ∀ key p, s.store.pools.get? key = some p → p.Covered
  exact : ∀ key c, Uniform s.log key c → ∀ p, s.store.pools.get? key = some p → p.Exact c
  /-- As many releases as there are acquisitions fill the pool. -/
  drained : ∀ key p, s.store.pools.get? key = some p →
    ∃ p', (s.run (List.replicate p.outstanding.length (.giveBack key))).store.pools.get? key =
      some p' ∧ p'.capacity = p.capacity ∧ p'.IsFull
  /-- A release that matches no acquisition changes nothing. -/
  idle : ∀ key, (∀ p, s.store.pools.get? key = some p → p.outstanding = []) →
    s.step (.giveBack key) = s
  /-- What is out was granted, in this order. -/
  taken : ∀ key p, s.store.pools.get? key = some p → p.outstanding.Sublist (takings key s.log)
  /-- A move that grants nothing takes nothing, whatever becomes of its call. -/
  spared : ∀ key m, s.Withholds key m → ∀ p', (s.step m).store.pools.get? key = some p' →
    (∀ p, s.store.pools.get? key = some p → p.Spared p') ∧
      (s.store.pools.get? key = none → p'.IsFull)
  /-- Every attempt is granted, denied or dropped once at most. -/
  ended : (endings s.log).Nodup

theorem run_conserved (client : Ulid) (moves : List Move) :
    Conserved ((start client).run moves) := by
  have h : Kept ((start client).run moves) := run_kept client moves
  exact {
    covered := h.covered
    exact := h.exact
    drained := fun key p hp => run_giveBack hp (h.covered key p hp)
    idle := fun _ => step_giveBack_idle
    taken := h.taken
    spared := fun key m hw => (shift_step h.known m).spared (h.covered key) hw
    ended := (run_ended client moves).nodup }

end Traffic

end Turnstile.Local
