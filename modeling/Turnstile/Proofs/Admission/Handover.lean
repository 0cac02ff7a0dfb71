import Turnstile.Proofs.Admission.Hands
import Turnstile.Proofs.Local.Latches

/-!
# Locks that are handed over with the pool at rest

What all tasks have in their hands agrees with the store (`Clean`). Whoever has the fair lock of a
key is its holder, and its ticket holds the latch (`Latched`). Permits are out while somebody has
them in its hands and all there otherwise, and whoever has permits has the lock as well or is ahead
of whoever has it, so that nobody unlocks while permits are out (`Stocked`). Therefore the pool is
at rest whenever a latch gets another holder (`Passes`), and when the task that has the lock asks
for permits (`Stocked.rested_of_lock`).
-/

namespace Turnstile.Admission

/-- A latch that gets another holder is one whose pool is at rest. -/
def Passes (s s' : Local.Store) : Prop :=
  ∀ key t, (s'.latch key).holder? = some t → (s.latch key).holder? ≠ some t → s'.Rested key

/-- Nobody waits under the ticket and nobody holds a lock under it. -/
structure IsFree (slip : Nat → Option Ticket) (s : Local.Store) (tickets : Nat) (t : Ticket) :
    Prop where
  bound : t < tickets
  slip : ∀ i, slip i ≠ some t
  holder : ∀ key o, s.holders.get? key ≠ some (o, t)

/-- The locks that tasks have and the tickets under which they wait agree with the store. -/
structure Latched (locks : Nat → Option (SlotKey × Ulid)) (slip : Nat → Option Ticket)
    (s : Local.Store) (tickets : Nat) : Prop where
  holder : ∀ key o t, s.holders.get? key = some (o, t) →
    (s.latch key).holder? = some t ∧ t < tickets ∧ ∀ i, slip i ≠ some t
  members : ∀ key, ∀ t ∈ (s.latch key).members, t < tickets
  bound : ∀ i t, slip i = some t → t < tickets
  apart : ∀ i j t, slip i = some t → slip j = some t → i = j
  known : ∀ i k o, locks i = some (k, o) → ∃ t, s.holders.get? k.text = some (o, t)
  alone : ∀ i j k o o', locks i = some (k, o) → locks j = some (k, o') → i = j

/-- The permits that tasks have are those that are out. -/
structure Stocked (locks : Nat → Option (SlotKey × Ulid)) (permits : Nat → Option SlotKey)
    (ahead : Nat → Nat → Prop) (s : Local.Store) : Prop where
  order : ∀ i k, permits i = some k →
    (∃ o, locks i = some (k, o)) ∨ ∃ j o, locks j = some (k, o) ∧ ahead i j
  once : ∀ i j k, permits i = some k → permits j = some k → i = j
  lent : ∀ i k, permits i = some k → s.Lent k.text
  rested : ∀ key, (∀ i, permits i ≠ some ⟨key⟩) → s.Rested key

structure Clean (hands : Nat → Hands) (slip : Nat → Option Ticket) (ahead : Nat → Nat → Prop)
    (s : Local.Store) (tickets : Nat) : Prop where
  locks : Latched (fun i => (hands i).lock?) slip s tickets
  permits : Stocked (fun i => (hands i).lock?) (fun i => (hands i).permits?) ahead s

section

variable {hands : Nat → Hands} {locks : Nat → Option (SlotKey × Ulid)}
  {permits : Nat → Option SlotKey} {slip slip' : Nat → Option Ticket}
  {ahead ahead' : Nat → Nat → Prop} {s s' : Local.Store} {tickets tickets' i now : Nat} {t : Ticket}
  {k : SlotKey} {o : Ulid}

theorem Passes.of_holder (h : ∀ key, (s'.latch key).holder? = (s.latch key).holder?) :
    Passes s s' := by
  intro key t ht hne
  exact absurd ((h key).symm.trans ht) hne

/-! ## Locks -/

namespace Latched

theorem start (client : Ulid) : Latched (fun _ => none) (fun _ => none) (.fresh client) 0 :=
  ⟨nofun, nofun, nofun, nofun, nofun, nofun⟩

/-- A lock without a holder is in nobody's hands. -/
theorem not_locked (h : Latched locks slip s tickets)
    (hn : ∀ o t, s.holders.get? k.text ≠ some (o, t)) (j : Nat) (o : Ulid) :
    locks j ≠ some (k, o) := by
  intro hj
  obtain ⟨t, ht⟩ := h.known j k o hj
  exact hn o t ht

/-- A latch that is free or held under a ticket that is free has no holder that was told. -/
theorem no_holder (h : Latched locks slip s tickets) (hfree : IsFree slip s tickets t) {key : String}
    (hl : (s.latch key).holder? = none ∨ (s.latch key).holder? = some t) (o : Ulid) (u : Ticket) :
    s.holders.get? key ≠ some (o, u) := by
  intro hg
  have hu := (h.holder key o u hg).1
  rcases hl with hl | hl
  · cases hl.symm.trans hu
  · obtain rfl := Option.some.inj (hl.symm.trans hu)
    exact hfree.holder key o hg

theorem reslip (h : Latched locks slip s tickets) (hs : ∀ j, j ≠ i → slip' j = slip j)
    (hle : tickets ≤ tickets') (hi : ∀ t, slip' i = some t → IsFree slip s tickets' t) :
    Latched locks slip' s tickets' where
  holder key o t hg := by
    obtain ⟨hl, ht, hne⟩ := h.holder key o t hg
    refine ⟨hl, Nat.lt_of_lt_of_le ht hle, fun j hj => ?_⟩
    by_cases hji : j = i
    · subst hji
      exact (hi t hj).holder key o hg
    · exact hne j ((hs j hji).symm.trans hj)
  members key t ht := Nat.lt_of_lt_of_le (h.members key t ht) hle
  bound j t hj := by
    by_cases hji : j = i
    · subst hji
      exact (hi t hj).bound
    · exact Nat.lt_of_lt_of_le (h.bound j t ((hs j hji).symm.trans hj)) hle
  apart j j' t hj hj' := by
    by_cases hji : j = i
    · by_cases hji' : j' = i
      · rw [hji, hji']
      · subst hji
        exact absurd ((hs j' hji').symm.trans hj') ((hi t hj).slip j')
    · by_cases hji' : j' = i
      · subst hji'
        exact absurd ((hs j hji).symm.trans hj) ((hi t hj').slip j)
      · exact h.apart j j' t ((hs j hji).symm.trans hj) ((hs j' hji').symm.trans hj')
  known := h.known
  alone := h.alone

theorem isFree_new (h : Latched locks slip s tickets) :
    IsFree slip s (tickets + 1) tickets where
  bound := Nat.lt_succ_self _
  slip i hi := Nat.lt_irrefl _ (h.bound i _ hi)
  holder key o hg := Nat.lt_irrefl _ (h.holder key o _ hg).2.1

theorem isFree_slip (h : Latched locks slip s tickets) (hi : slip i = some t)
    (hs : ∀ j, j ≠ i → slip' j = slip j) (hn : slip' i = none) : IsFree slip' s tickets t where
  bound := h.bound i t hi
  slip j hj := by
    by_cases hji : j = i
    · subst hji
      cases hn.symm.trans hj
    · exact hji (h.apart j i t ((hs j hji).symm.trans hj) hi)
  holder key o hg := (h.holder key o t hg).2.2 i hi

/-- Lines change, and nobody who holds a lock notices. -/
theorem keep (h : Latched locks slip s tickets) (hh : s'.holders = s.holders)
    (hl : ∀ key o t, s.holders.get? key = some (o, t) → (s'.latch key).holder? = some t)
    (hm : ∀ key, ∀ t ∈ (s'.latch key).members, t < tickets) : Latched locks slip s' tickets where
  holder key o t hg := by
    rw [hh] at hg
    exact ⟨hl key o t hg, (h.holder key o t hg).2⟩
  members := hm
  bound := h.bound
  apart := h.apart
  known := hh ▸ h.known
  alone := h.alone

theorem beside (h : Latched locks slip s tickets) (hb : s.Beside s') :
    Latched locks slip s' tickets := by
  refine h.keep hb.holders (fun key o t hg => ?_) fun key t ht => ?_
  · rw [hb.latch]
    exact (h.holder key o t hg).1
  · rw [hb.latch] at ht
    exact h.members key t ht

/-- A lock without a holder is granted to the task `i`. -/
theorem grant (h : Latched locks slip s tickets) (hfree : IsFree slip s tickets t)
    (hn : ∀ o t, s.holders.get? k.text ≠ some (o, t))
    (hh : s'.holders = s.holders.insert k.text (o, t)) (ht : (s'.latch k.text).holder? = some t)
    (hother : ∀ key, key ≠ k.text → s'.latch key = s.latch key)
    (hm : ∀ key, ∀ u ∈ (s'.latch key).members, u < tickets) :
    Latched (Function.update locks i (some (k, o))) slip s' tickets := by
  have hlocks : ∀ j k' o', Function.update locks i (some (k, o)) j = some (k', o') →
      j = i ∧ k' = k ∧ o' = o ∨ k' ≠ k ∧ locks j = some (k', o') := by
    intro j k' o' hj
    by_cases hji : j = i
    · subst hji
      rw [Function.update_self] at hj
      cases hj
      exact .inl ⟨rfl, rfl, rfl⟩
    · rw [Function.update_of_ne hji] at hj
      refine .inr ⟨fun hk => ?_, hj⟩
      subst hk
      exact h.not_locked hn j o' hj
  refine ⟨?holder, hm, h.bound, h.apart, ?known, ?alone⟩
  case holder =>
    intro key o' t' hg
    rw [hh, Table.get?_insert] at hg
    split at hg
    · rename_i hkey
      subst hkey
      cases hg
      exact ⟨ht, hfree.bound, hfree.slip⟩
    · rename_i hkey
      rw [hother key hkey]
      exact h.holder key o' t' hg
  case known =>
    intro j k' o' hj
    rw [hh, Table.get?_insert]
    rcases hlocks j k' o' hj with ⟨-, rfl, rfl⟩ | ⟨hk, hj⟩
    · exact ⟨t, if_pos rfl⟩
    · have hkey : k'.text ≠ k.text := fun he => hk (congrArg SlotKey.mk he)
      rw [if_neg hkey]
      exact h.known j k' o' hj
  case alone =>
    intro j j' k' o₁ o₂ hj hj'
    rcases hlocks j k' o₁ hj with ⟨rfl, rfl, -⟩ | ⟨hk, hj⟩
    · rcases hlocks j' _ o₂ hj' with ⟨rfl, -, -⟩ | ⟨hk, -⟩
      · rfl
      · exact absurd rfl hk
    · rcases hlocks j' k' o₂ hj' with ⟨-, rfl, -⟩ | ⟨-, hj'⟩
      · exact absurd rfl hk
      · exact h.alone j j' k' o₁ o₂ hj hj'

/-- The task `i` lets go of its lock. -/
theorem unlock (h : Latched locks slip s tickets) (hi : locks i = some (k, o))
    (hh : s'.holders = s.holders.erase k.text)
    (hother : ∀ key, key ≠ k.text → s'.latch key = s.latch key)
    (hm : ∀ key, ∀ u ∈ (s'.latch key).members, u < tickets) :
    Latched (Function.update locks i none) slip s' tickets := by
  have hlocks : ∀ j k' o', Function.update locks i none j = some (k', o') →
      j ≠ i ∧ locks j = some (k', o') := by
    intro j k' o' hj
    by_cases hji : j = i
    · subst hji
      rw [Function.update_self] at hj
      cases hj
    · rw [Function.update_of_ne hji] at hj
      exact ⟨hji, hj⟩
  refine ⟨?holder, hm, h.bound, h.apart, ?known, ?alone⟩
  case holder =>
    intro key o' t' hg
    rw [hh, Table.get?_erase] at hg
    split at hg
    · cases hg
    · rename_i hkey
      rw [hother key hkey]
      exact h.holder key o' t' hg
  case known =>
    intro j k' o' hj
    obtain ⟨hji, hj⟩ := hlocks j k' o' hj
    have hkey : k'.text ≠ k.text := by
      intro he
      obtain rfl : k' = k := congrArg SlotKey.mk he
      exact hji (h.alone j i k' o' o hj hi)
    rw [hh, Table.get?_erase, if_neg hkey]
    exact h.known j k' o' hj
  case alone =>
    intro j j' k' o₁ o₂ hj hj'
    exact h.alone j j' k' o₁ o₂ (hlocks j k' o₁ hj).2 (hlocks j' k' o₂ hj').2

end Latched

/-! ## Permits -/

namespace Stocked

theorem start (client : Ulid) :
    Stocked (fun _ => none) (fun _ => none) (fun _ _ => False) (.fresh client) :=
  ⟨nofun, nofun, nofun, fun _ _ => nofun⟩

/-- Where nobody has the lock, nobody has permits. -/
theorem rested_of_free (h : Stocked locks permits ahead s)
    (hfree : ∀ i o, locks i ≠ some (k, o)) : s.Rested k.text := by
  refine h.rested k.text fun i hi => ?_
  rcases h.order i k hi with ⟨o, ho⟩ | ⟨j, o, ho, -⟩
  · exact hfree i o ho
  · exact hfree j o ho

/-- Whoever has the lock while nobody is ahead has the permits, or nobody has. -/
theorem rested_of_lock (h : Stocked locks permits ahead s) (hl : Latched locks slip s tickets)
    (hi : locks i = some (k, o)) (hp : permits i = none) (hahead : ∀ j, ¬ ahead j i) :
    s.Rested k.text := by
  refine h.rested k.text fun j hj => ?_
  rcases h.order j k hj with ⟨o', ho'⟩ | ⟨j', o', ho', hbefore⟩
  · obtain rfl := hl.alone j i k o' o ho' hi
    cases hp.symm.trans hj
  · obtain rfl := hl.alone j' i k o' o ho' hi
    exact hahead j hbefore

/-- Who is ahead of whom matters to those who have permits and not the lock. -/
theorem reorder (h : Stocked locks permits ahead s)
    (ha : ∀ i j k o, permits i = some k → (∀ o, locks i ≠ some (k, o)) → locks j = some (k, o) →
      ahead i j → ahead' i j) : Stocked locks permits ahead' s where
  order i k hi := by
    by_cases hown : ∃ o, locks i = some (k, o)
    · exact .inl hown
    · obtain ⟨j, o, hj, hij⟩ := (h.order i k hi).resolve_left hown
      exact .inr ⟨j, o, hj, ha i j k o hi (fun o ho => hown ⟨o, ho⟩) hj hij⟩
  once := h.once
  lent := h.lent
  rested := h.rested

/-- Some pools may be gone. -/
theorem keep (h : Stocked locks permits ahead s)
    (hp : ∀ key p, s'.pools.get? key = some p → s.pools.get? key = some p) :
    Stocked locks permits ahead s' where
  order := h.order
  once := h.once
  lent i k hi p hk := h.lent i k hi p (hp k.text p hk)
  rested key hn p hk := h.rested key hn p (hp key p hk)

theorem grant (h : Stocked locks permits ahead s) (hi : locks i = none) (x : SlotKey × Ulid) :
    Stocked (Function.update locks i (some x)) permits ahead s where
  order j k' hj := by
    have hne : ∀ j' o', locks j' = some (k', o') → j' ≠ i := by
      rintro j' o' hj' rfl
      cases hi.symm.trans hj'
    rcases h.order j k' hj with ⟨o', ho'⟩ | ⟨j', o', ho', hbefore⟩
    · refine .inl ⟨o', ?_⟩
      rwa [Function.update_of_ne (hne j o' ho')]
    · refine .inr ⟨j', o', ?_, hbefore⟩
      rwa [Function.update_of_ne (hne j' o' ho')]
  once := h.once
  lent := h.lent
  rested := h.rested

theorem unlock (h : Stocked locks permits ahead s) (hp : permits i = none)
    (hahead : ∀ j, ¬ ahead j i) : Stocked (Function.update locks i none) permits ahead s where
  order j k' hj := by
    rcases h.order j k' hj with ⟨o', ho'⟩ | ⟨j', o', ho', hbefore⟩
    · have hji : j ≠ i := by
        rintro rfl
        cases hp.symm.trans hj
      refine .inl ⟨o', ?_⟩
      rwa [Function.update_of_ne hji]
    · have hji : j' ≠ i := by
        rintro rfl
        exact hahead j hbefore
      refine .inr ⟨j', o', ?_, hbefore⟩
      rwa [Function.update_of_ne hji]
  once := h.once
  lent := h.lent
  rested := h.rested

/-- Permits are granted to the task that has the lock. -/
theorem lend (h : Stocked locks permits ahead s) (hi : locks i = some (k, o))
    (hp : permits i = none) (hl : s'.Lent k.text)
    (hother : ∀ key, key ≠ k.text → s'.pools.get? key = s.pools.get? key)
    (hn : ∀ j, permits j ≠ some k) :
    Stocked locks (Function.update permits i (some k)) ahead s' := by
  have hpermits : ∀ j k', Function.update permits i (some k) j = some k' →
      j = i ∧ k' = k ∨ k' ≠ k ∧ permits j = some k' := by
    intro j k' hj
    by_cases hji : j = i
    · subst hji
      rw [Function.update_self] at hj
      exact .inl ⟨rfl, (Option.some.inj hj).symm⟩
    · rw [Function.update_of_ne hji] at hj
      refine .inr ⟨?_, hj⟩
      rintro rfl
      exact hn j hj
  refine ⟨?order, ?once, ?lent, ?rested⟩
  case order =>
    intro j k' hj
    rcases hpermits j k' hj with ⟨rfl, rfl⟩ | ⟨-, hj⟩
    · exact .inl ⟨o, hi⟩
    · exact h.order j k' hj
  case once =>
    intro j j' k' hj hj'
    rcases hpermits j k' hj with ⟨rfl, rfl⟩ | ⟨hk, hj⟩
    · rcases hpermits j' _ hj' with ⟨rfl, -⟩ | ⟨hk, -⟩
      · rfl
      · exact absurd rfl hk
    · rcases hpermits j' k' hj' with ⟨-, rfl⟩ | ⟨-, hj'⟩
      · exact absurd rfl hk
      · exact h.once j j' k' hj hj'
  case lent =>
    intro j k' hj
    rcases hpermits j k' hj with ⟨-, rfl⟩ | ⟨hk, hj⟩
    · exact hl
    · intro p hp'
      rw [hother k'.text fun he => hk (congrArg SlotKey.mk he)] at hp'
      exact h.lent j k' hj p hp'
  case rested =>
    intro key hno p hp'
    have hkey : key ≠ k.text := by
      rintro rfl
      exact hno i (Function.update_self ..)
    rw [hother key hkey] at hp'
    refine h.rested key (fun j hj => ?_) p hp'
    have hji : j ≠ i := by
      rintro rfl
      cases hp.symm.trans hj
    exact hno j ((Function.update_of_ne hji ..).trans hj)

/-- Permits come back. -/
theorem restore (h : Stocked locks permits ahead s) (hi : permits i = some k)
    (hr : s'.Rested k.text)
    (hother : ∀ key, key ≠ k.text → s'.pools.get? key = s.pools.get? key) :
    Stocked locks (Function.update permits i none) ahead s' := by
  have hpermits : ∀ j k', Function.update permits i none j = some k' → j ≠ i ∧ permits j = some k' := by
    intro j k' hj
    by_cases hji : j = i
    · subst hji
      rw [Function.update_self] at hj
      cases hj
    · rw [Function.update_of_ne hji] at hj
      exact ⟨hji, hj⟩
  refine ⟨?order, ?once, ?lent, ?rested⟩
  case order =>
    intro j k' hj
    exact h.order j k' (hpermits j k' hj).2
  case once =>
    intro j j' k' hj hj'
    exact h.once j j' k' (hpermits j k' hj).2 (hpermits j' k' hj').2
  case lent =>
    intro j k' hj p hp'
    obtain ⟨hji, hj⟩ := hpermits j k' hj
    have hkey : k'.text ≠ k.text := by
      intro he
      obtain rfl : k' = k := congrArg SlotKey.mk he
      exact hji (h.once j i k' hj hi)
    rw [hother k'.text hkey] at hp'
    exact h.lent j k' hj p hp'
  case rested =>
    intro key hno p hp'
    by_cases hkey : key = k.text
    · subst hkey
      exact hr p hp'
    · rw [hother key hkey] at hp'
      refine h.rested key (fun j hj => ?_) p hp'
      have hji : j ≠ i := by
        rintro rfl
        cases hi.symm.trans hj
        exact hkey rfl
      exact hno j ((Function.update_of_ne hji ..).trans hj)

end Stocked

/-- One task waits under another ticket, or does not wait any more. -/
theorem Clean.reslip (h : Clean hands slip ahead s tickets) (hs : ∀ j, j ≠ i → slip' j = slip j)
    (hle : tickets ≤ tickets') (hi : ∀ t, slip' i = some t → IsFree slip s tickets' t) :
    Clean hands slip' ahead s tickets' :=
  ⟨h.locks.reslip hs hle hi, h.permits⟩

/-- The task `i` does not wait any more, and its ticket is free. -/
theorem Clean.unslip (h : Clean hands slip ahead s tickets) (hi : slip i = some t) :
    IsFree (Function.update slip i none) s tickets t ∧
      Clean hands (Function.update slip i none) ahead s tickets := by
  have hother : ∀ j, j ≠ i → Function.update slip i none j = slip j :=
    fun j hj => Function.update_of_ne hj ..
  have hself : Function.update slip i none i = none := Function.update_self ..
  exact ⟨h.locks.isFree_slip hi hother hself,
    h.reslip hother (Nat.le_refl _) fun u hu => nomatch hself.symm.trans hu⟩

end

end Turnstile.Admission
