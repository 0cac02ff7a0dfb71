import Turnstile.Proofs.Local.Callers
import Turnstile.Proofs.Names

/-!
# The entries of one key

A store has for each key two buckets, a pool, the latches of a fair and of a named lock and the
holder of the fair lock. `Store.Same key s s'` says that two stores have the same entries there.
Operations for `key` answer alike on both and leave them so (the lemmas `_same`), and what they
change is `Within` the entries of `key` (the lemmas `_within`). Keys of two slots are `Strangers`:
no entry belongs to both.
-/

namespace Turnstile

theorem Table.get?_insert_congr {κ α : Type} [DecidableEq κ] {t t' : Table κ α} {k k' : κ} {a : α}
    (h : t'.get? k' = t.get? k') : (t'.insert k a).get? k' = (t.insert k a).get? k' := by
  rw [get?_insert, get?_insert, h]

namespace Local

/-- The key that an attempt is for. -/
def Attempt.key : Attempt → String
  | token key _ _ => key
  | lock key _ _ => key
  | permits key _ _ => key
  | named key _ => key

namespace Store

variable {α : Type} {s s' s'' : Store} {t : Ticket} {now n deadline : Nat}
  {key key' name bucket : String} {owner : Option Ulid} {u : Ulid} {rate : RatePlan}
  {plan : PoolPlan} {a : Attempt} {w w' : Waiting}

/-! ## Names -/

/-- The bucket is that of all callers of `key` or that of the store's own. -/
def IsBucketOf (s : Store) (key name : String) : Prop := ∃ scope, name = s.bucketName key scope

/-- The latch is that of the fair lock or of the named lock of `key`. -/
def IsLatchOf (key name : String) : Prop := name = key ∨ name = lockName key

theorem isBucketOf_congr (h : s'.client = s.client) : s'.IsBucketOf key name ↔ s.IsBucketOf key name := by
  unfold IsBucketOf bucketName
  rw [h]

/-- No entry of a store belongs to both keys. -/
structure Strangers (key key' : String) : Prop where
  ne : key ≠ key'
  bucket : ∀ s : Store, ∀ name, s.IsBucketOf key name → ¬ s.IsBucketOf key' name
  latch : ∀ name, IsLatchOf key name → ¬ IsLatchOf key' name

/-- What a waiting attempt remembers has names of `key`. -/
def Serves (s : Store) (key : String) : Waiting → Prop
  | .token bucket _ _ _ => s.IsBucketOf key bucket
  | .turn name _ _ => IsLatchOf key name
  | .permits key' _ _ _ => key' = key

theorem serves_congr (h : s'.client = s.client) : s'.Serves key w ↔ s.Serves key w := by
  cases w with
  | token => exact isBucketOf_congr h
  | turn => exact Iff.rfl
  | permits => exact Iff.rfl

/-! ## Two stores, and one before and after -/

/-- The stores have the same entries for `key`. -/
structure Same (key : String) (s s' : Store) : Prop where
  client : s'.client = s.client
  bucket : ∀ name, s.IsBucketOf key name → s'.buckets.get? name = s.buckets.get? name
  pool : s'.pools.get? key = s.pools.get? key
  latch : ∀ name, IsLatchOf key name → s'.latches.get? name = s.latches.get? name
  holder : s'.holders.get? key = s.holders.get? key

/-- The same answer, and stores with the same entries for `key`. -/
structure Alike (key : String) (r r' : Store × α) : Prop where
  store : Same key r.1 r'.1
  answer : r'.2 = r.2

theorem Alike.map {β : Type} {r r' : Store × α} (h : Alike key r r') (f : α → β) :
    Alike key (r.1, f r.2) (r'.1, f r'.2) :=
  ⟨h.store, congrArg f h.answer⟩

/-- Only entries of `key` changed. -/
structure Within (key : String) (s s' : Store) : Prop where
  client : s'.client = s.client
  bucket : ∀ name, ¬ s.IsBucketOf key name → s'.buckets.get? name = s.buckets.get? name
  pool : ∀ key', key' ≠ key → s'.pools.get? key' = s.pools.get? key'
  latch : ∀ name, ¬ IsLatchOf key name → s'.latches.get? name = s.latches.get? name
  holder : ∀ name, ¬ IsLatchOf key name → s'.holders.get? name = s.holders.get? name

namespace Same

theorem refl : Same key s s := ⟨rfl, fun _ _ => rfl, rfl, fun _ _ => rfl, rfl⟩

theorem trans (h : Same key s s') (h' : Same key s' s'') : Same key s s'' where
  client := h'.client.trans h.client
  bucket name hn := (h'.bucket name ((isBucketOf_congr h.client).2 hn)).trans (h.bucket name hn)
  pool := h'.pool.trans h.pool
  latch name hn := (h'.latch name hn).trans (h.latch name hn)
  holder := h'.holder.trans h.holder

theorem symm (h : Same key s s') : Same key s' s where
  client := h.client.symm
  bucket name hn := (h.bucket name ((isBucketOf_congr h.client).1 hn)).symm
  pool := h.pool.symm
  latch name hn := (h.latch name hn).symm
  holder := h.holder.symm

end Same

namespace Within

theorem refl : Within key s s :=
  ⟨rfl, fun _ _ => rfl, fun _ _ => rfl, fun _ _ => rfl, fun _ _ => rfl⟩

theorem trans (h : Within key s s') (h' : Within key s' s'') : Within key s s'' where
  client := h'.client.trans h.client
  bucket name hn :=
    (h'.bucket name fun hb => hn ((isBucketOf_congr h.client).1 hb)).trans (h.bucket name hn)
  pool k hk := (h'.pool k hk).trans (h.pool k hk)
  latch name hn := (h'.latch name hn).trans (h.latch name hn)
  holder name hn := (h'.holder name hn).trans (h.holder name hn)

/-- What changes for one key is not seen from another. -/
theorem same (h : Within key' s s') (hk : Strangers key key') : Same key s s' where
  client := h.client
  bucket name hn := h.bucket name (hk.bucket s name hn)
  pool := h.pool key hk.ne
  latch name hn := h.latch name (hk.latch name hn)
  holder := h.holder key (hk.latch key (.inl rfl))

end Within

/-! ## Single entries -/

theorem setBucket_within (hn : s.IsBucketOf key bucket) (b : Bucket Float) :
    Within key s { s with buckets := s.buckets.insert bucket b } where
  client := rfl
  bucket name hname := by
    have hne : name ≠ bucket := fun he => hname (he ▸ hn)
    rw [Table.get?_insert, if_neg hne]
  pool _ _ := rfl
  latch _ _ := rfl
  holder _ _ := rfl

theorem setPool_within (p : Pool) : Within key s { s with pools := s.pools.insert key p } where
  client := rfl
  bucket _ _ := rfl
  pool key' hk := by rw [Table.get?_insert, if_neg hk]
  latch _ _ := rfl
  holder _ _ := rfl

theorem setLatch_within (hn : IsLatchOf key name) (l : Latch) :
    Within key s (s.setLatch name l) where
  client := rfl
  bucket _ _ := rfl
  pool _ _ := rfl
  latch name' hname := by
    have hne : name' ≠ name := fun he => hname (he ▸ hn)
    rw [setLatch, Table.get?_insert, if_neg hne]
  holder _ _ := rfl

theorem grantLatch_within (hn : IsLatchOf key name) :
    Within key s (s.grantLatch t name owner) := by
  cases owner with
  | none => exact .refl
  | some u =>
    refine ⟨rfl, fun _ _ => rfl, fun _ _ => rfl, fun _ _ => rfl, fun name' hname => ?_⟩
    have hne : name' ≠ name := fun he => hname (he ▸ hn)
    rw [grantLatch, Table.get?_insert, if_neg hne]

namespace Same

variable (h : Same key s s')
include h

theorem setBucket (b : Bucket Float) :
    Same key { s with buckets := s.buckets.insert bucket b }
      { s' with buckets := s'.buckets.insert bucket b } :=
  ⟨h.client, fun name hn => Table.get?_insert_congr (h.bucket name hn), h.pool, h.latch, h.holder⟩

theorem setPool (p : Pool) :
    Same key { s with pools := s.pools.insert key p }
      { s' with pools := s'.pools.insert key p } :=
  ⟨h.client, h.bucket, Table.get?_insert_congr h.pool, h.latch, h.holder⟩

theorem setLatch (l : Latch) : Same key (s.setLatch name l) (s'.setLatch name l) :=
  ⟨h.client, h.bucket, h.pool, fun name hn => Table.get?_insert_congr (h.latch name hn), h.holder⟩

theorem grantLatch : Same key (s.grantLatch t name owner) (s'.grantLatch t name owner) := by
  cases owner with
  | none => exact h
  | some u => exact ⟨h.client, h.bucket, h.pool, h.latch, Table.get?_insert_congr h.holder⟩

theorem latch_eq (hn : IsLatchOf key name) : s'.latch name = s.latch name := by
  rw [Store.latch, h.latch name hn]
  rfl

end Same

/-! ## Buckets -/

theorem tryToken_within (hn : s.IsBucketOf key bucket) :
    Within key s (s.tryToken t now bucket rate deadline).1 := by
  have hw : Within key s (s.takeToken bucket rate now).1 := setBucket_within hn _
  unfold tryToken
  split
  · rename_i hs
    rwa [hs] at hw
  · rename_i hs
    rw [hs] at hw
    split
    · exact hw
    · exact hw

theorem tryToken_serves (hn : s.IsBucketOf key bucket)
    (h : (s.tryToken t now bucket rate deadline).2 = .waiting w) : s.Serves key w := by
  unfold tryToken at h
  split at h
  · cases h
  · split at h
    · cases h
      exact hn
    · cases h

theorem takeToken_same (h : Same key s s') (hn : s.IsBucketOf key bucket) :
    Alike key (s.takeToken bucket rate now) (s'.takeToken bucket rate now) := by
  unfold takeToken
  rw [h.bucket bucket hn]
  exact ⟨h.setBucket _, rfl⟩

theorem tryToken_same (h : Same key s s') (hn : s.IsBucketOf key bucket) :
    Alike key (s.tryToken t now bucket rate deadline) (s'.tryToken t now bucket rate deadline) := by
  have htake : Alike key (s.takeToken bucket rate now) (s'.takeToken bucket rate now) :=
    takeToken_same h hn
  unfold tryToken
  generalize s.takeToken bucket rate now = r at htake
  generalize s'.takeToken bucket rate now = r' at htake
  obtain ⟨st, x⟩ := r
  obtain ⟨st', x'⟩ := r'
  obtain ⟨hs, rfl⟩ := htake
  cases x' with
  | taken => exact ⟨hs, rfl⟩
  | wait d =>
    dsimp only
    split
    · exact ⟨hs, rfl⟩
    · exact ⟨hs, rfl⟩

/-! ## Pools -/

theorem modify_eq {p : Pool} (f : Pool → Pool) (hp : s.pools.get? key = some p) :
    s.pools.modify key f = s.pools.insert key (f p) := by
  rw [Table.modify, hp]

theorem modify_within (f : Pool → Pool) :
    Within key s { s with pools := s.pools.modify key f } := by
  cases hp : s.pools.get? key with
  | none =>
    rw [Table.modify, hp]
    exact .refl
  | some p =>
    rw [modify_eq f hp]
    exact setPool_within _

theorem modify_same (f : Pool → Pool) (h : Same key s s') :
    Same key { s with pools := s.pools.modify key f }
      { s' with pools := s'.pools.modify key f } := by
  have hpool := h.pool
  cases hp : s.pools.get? key with
  | none =>
    rw [hp] at hpool
    rw [Table.modify, Table.modify, hp, hpool]
    exact h
  | some p =>
    rw [hp] at hpool
    rw [modify_eq f hp, modify_eq f hpool]
    exact h.setPool _

theorem tryPermits_within : Within key s (s.tryPermits t now key plan n deadline).1 := by
  have hw : Within key s (s.takePermits key plan n now).1 := setPool_within _
  unfold tryPermits
  split
  · rename_i hs
    rwa [hs] at hw
  · rename_i hs
    rwa [hs] at hw
  · rename_i hs
    rw [hs] at hw
    split
    · exact hw
    · exact hw.trans (modify_within _)

theorem takePermits_same (h : Same key s s') :
    Alike key (s.takePermits key plan n now) (s'.takePermits key plan n now) := by
  unfold takePermits
  rw [h.pool]
  exact ⟨h.setPool _, rfl⟩

theorem tryPermits_same (h : Same key s s') :
    Alike key (s.tryPermits t now key plan n deadline)
      (s'.tryPermits t now key plan n deadline) := by
  have htake : Alike key (s.takePermits key plan n now) (s'.takePermits key plan n now) :=
    takePermits_same h
  unfold tryPermits
  generalize s.takePermits key plan n now = r at htake
  generalize s'.takePermits key plan n now = r' at htake
  obtain ⟨st, x⟩ := r
  obtain ⟨st', x'⟩ := r'
  obtain ⟨hs, rfl⟩ := htake
  cases x' with
  | granted => exact ⟨hs, rfl⟩
  | impossible => exact ⟨hs, rfl⟩
  | short =>
    dsimp only
    split
    · exact ⟨hs, rfl⟩
    · exact ⟨modify_same _ hs, rfl⟩

theorem giveBack_within : Within key s (s.giveBack key now).1 := by
  unfold giveBack
  split
  · exact setPool_within _
  · exact .refl

theorem giveBack_same (h : Same key s s') :
    Alike key (s.giveBack key now) (s'.giveBack key now) := by
  unfold giveBack
  rw [h.pool]
  split
  · exact ⟨h.setPool _, rfl⟩
  · exact ⟨h, rfl⟩

/-! ## Latches -/

theorem enterLatch_within (hn : IsLatchOf key name) :
    Within key s (s.enterLatch t name owner deadline).1 := by
  have hw : Within key s (s.setLatch name ((s.latch name).enter t)) := setLatch_within hn _
  unfold enterLatch
  dsimp only
  split
  · exact hw.trans (grantLatch_within hn)
  · exact hw

theorem enterLatch_serves (hn : IsLatchOf key name)
    (h : (s.enterLatch t name owner deadline).2 = .waiting w) : s.Serves key w := by
  unfold enterLatch at h
  dsimp only at h
  split at h
  · cases h
  · cases h
    exact hn

theorem enterLatch_same (h : Same key s s') (hn : IsLatchOf key name) :
    Alike key (s.enterLatch t name owner deadline) (s'.enterLatch t name owner deadline) := by
  unfold enterLatch
  dsimp only
  rw [h.latch_eq hn]
  split
  · exact ⟨(h.setLatch _).grantLatch, rfl⟩
  · exact ⟨h.setLatch _, rfl⟩

theorem tryLatch_within (hn : IsLatchOf key name) : Within key s (s.tryLatch t name u).1 := by
  have hw : Within key s (s.setLatch name (.held t [])) := setLatch_within hn _
  unfold tryLatch
  split
  · have hg : Within key (s.setLatch name (.held t []))
        ((s.setLatch name (.held t [])).grantLatch t name (some u)) := grantLatch_within hn
    exact hw.trans hg
  · exact .refl

theorem tryLatch_waiting : (s.tryLatch t name u).2 ≠ .waiting w := by
  unfold tryLatch
  split <;> exact nofun

theorem tryLatch_same (h : Same key s s') (hn : IsLatchOf key name) :
    Alike key (s.tryLatch t name u) (s'.tryLatch t name u) := by
  have hs : Same key (s.setLatch name (.held t [])) (s'.setLatch name (.held t [])) := h.setLatch _
  unfold tryLatch
  rw [h.latch_eq hn]
  split
  · have hg : Same key ((s.setLatch name (.held t [])).grantLatch t name (some u))
        ((s'.setLatch name (.held t [])).grantLatch t name (some u)) := hs.grantLatch
    exact ⟨hg, rfl⟩
  · exact ⟨h, rfl⟩

theorem leaveLatch_within (hn : IsLatchOf key name) : Within key s (s.leaveLatch name t).1 := by
  unfold leaveLatch
  split
  · exact .refl
  · exact setLatch_within hn _

theorem leaveLatch_same (h : Same key s s') (hn : IsLatchOf key name) :
    Alike key (s.leaveLatch name t) (s'.leaveLatch name t) := by
  unfold leaveLatch
  rw [h.latch name hn]
  split
  · exact ⟨h, rfl⟩
  · exact ⟨h.setLatch _, rfl⟩

theorem eraseHolder_within :
    Within key s { s with holders := s.holders.erase key } := by
  refine ⟨rfl, fun _ _ => rfl, fun _ _ => rfl, fun _ _ => rfl, fun name hname => ?_⟩
  have hne : name ≠ key := fun he => hname (.inl he)
  rw [Table.get?_erase, if_neg hne]

theorem eraseHolder_same (h : Same key s s') :
    Same key { s with holders := s.holders.erase key }
      { s' with holders := s'.holders.erase key } := by
  refine ⟨h.client, h.bucket, h.pool, h.latch, ?_⟩
  rw [Table.get?_erase, Table.get?_erase, h.holder]

theorem unlock_within : Within key s (s.unlock key u).1 := by
  unfold unlock
  split
  · split
    · exact eraseHolder_within.trans (leaveLatch_within (.inl rfl))
    · exact .refl
  · exact .refl

theorem unlock_same (h : Same key s s') : Alike key (s.unlock key u) (s'.unlock key u) := by
  unfold unlock
  rw [h.holder]
  split
  · rename_i v t _
    split
    · have hleave := leaveLatch_same (t := t) (eraseHolder_same h) (.inl rfl)
      exact hleave.map fun woken => (true, woken)
    · exact ⟨h, rfl⟩
  · exact ⟨h, rfl⟩

/-! ## Attempts -/

theorem cancel_within (hw : s.Serves key w) : Within key s (s.cancel t w).1 := by
  cases w with
  | token => exact .refl
  | turn => exact leaveLatch_within hw
  | permits =>
    cases hw
    exact modify_within _

theorem cancel_same (h : Same key s s') (hw : s.Serves key w) :
    Alike key (s.cancel t w) (s'.cancel t w) := by
  cases w with
  | token => exact ⟨h, rfl⟩
  | turn => exact leaveLatch_same h hw
  | permits =>
    cases hw
    exact ⟨modify_same _ h, rfl⟩

theorem start_within : Within a.key s (s.start t now a).1 := by
  cases a with
  | token => exact tryToken_within ⟨_, rfl⟩
  | permits => exact tryPermits_within
  | lock =>
    simp only [start]
    split
    · exact tryLatch_within (.inl rfl)
    · exact enterLatch_within (.inl rfl)
  | named key wait =>
    have hn : IsLatchOf key (lockName key) := .inr rfl
    have hw : Within key s (s.enterLatch t (lockName key) none (now + wait.nanos)).1 :=
      enterLatch_within hn
    simp only [start]
    split
    · rename_i s₁ w hs
      have hserves : s.Serves key w := enterLatch_serves hn (congrArg Prod.snd hs)
      rw [hs] at hw
      split
      · exact hw.trans (cancel_within ((serves_congr hw.client).2 hserves))
      · exact hw
    · exact hw

theorem start_serves (h : (s.start t now a).2 = .waiting w) : s.Serves a.key w := by
  cases a with
  | token => exact tryToken_serves ⟨_, rfl⟩ h
  | permits =>
    rw [tryPermits_waiting h]
    rfl
  | lock =>
    simp only [start] at h
    split at h
    · exact absurd h tryLatch_waiting
    · exact enterLatch_serves (.inl rfl) h
  | named key wait =>
    have hn : IsLatchOf key (lockName key) := .inr rfl
    simp only [start] at h
    split at h
    · rename_i s₁ w' hs
      split at h
      · cases h
      · cases h
        exact enterLatch_serves hn (congrArg Prod.snd hs)
    · exact enterLatch_serves hn h

theorem start_same (h : Same a.key s s') : Alike a.key (s.start t now a) (s'.start t now a) := by
  cases a with
  | token key wait rate =>
    simp only [start]
    rw [show s'.bucketName key rate.scope = s.bucketName key rate.scope by
      unfold bucketName; rw [h.client]]
    exact tryToken_same h ⟨_, rfl⟩
  | permits => exact tryPermits_same h
  | lock =>
    simp only [start]
    split
    · exact tryLatch_same h (.inl rfl)
    · exact enterLatch_same h (.inl rfl)
  | named key wait =>
    have hn : IsLatchOf key (lockName key) := .inr rfl
    have henter : Alike key (s.enterLatch t (lockName key) none (now + wait.nanos))
        (s'.enterLatch t (lockName key) none (now + wait.nanos)) := enterLatch_same h hn
    have hserves : ∀ w, (s.enterLatch t (lockName key) none (now + wait.nanos)).2 = .waiting w →
        s.Serves key w := fun w => enterLatch_serves hn
    have hw : Within key s (s.enterLatch t (lockName key) none (now + wait.nanos)).1 :=
      enterLatch_within hn
    simp only [start]
    generalize s.enterLatch t (lockName key) none (now + wait.nanos) = r at henter hserves hw
    generalize s'.enterLatch t (lockName key) none (now + wait.nanos) = r' at henter
    obtain ⟨st, p⟩ := r
    obtain ⟨st', p'⟩ := r'
    obtain ⟨hs, rfl⟩ := henter
    cases p' with
    | done o => exact ⟨hs, rfl⟩
    | waiting w =>
      dsimp only
      split
      · exact ⟨(cancel_same hs ((serves_congr hw.client).2 (hserves w rfl))).store, rfl⟩
      · exact ⟨hs, rfl⟩

theorem begin_within : Within a.key s (s.begin t now a).1 := by
  unfold begin
  split
  · exact .refl
  · exact start_within

theorem begin_serves (h : (s.begin t now a).2 = .waiting w) : s.Serves a.key w := by
  unfold begin at h
  split at h
  · cases h
  · exact start_serves h

theorem begin_same (h : Same a.key s s') : Alike a.key (s.begin t now a) (s'.begin t now a) := by
  unfold begin
  split
  · exact ⟨h, rfl⟩
  · exact start_same h

theorem resume_within (hw : s.Serves key w) : Within key s (s.resume t now w).1 := by
  unfold resume
  cases w with
  | token =>
    dsimp only
    split
    · exact tryToken_within hw
    · exact .refl
  | turn =>
    dsimp only
    split
    · exact grantLatch_within hw
    · split
      · exact leaveLatch_within hw
      · exact .refl
  | permits =>
    cases hw
    dsimp only
    split
    · exact .refl
    · split
      · exact (setPool_within _).trans tryPermits_within
      · split
        · exact setPool_within _
        · exact .refl

theorem resume_serves (hw : s.Serves key w) (h : (s.resume t now w).2.2 = .waiting w') :
    s.Serves key w' := by
  cases w with
  | token =>
    simp only [resume] at h
    split at h
    · exact tryToken_serves hw h
    · cases h
      exact hw
  | turn =>
    simp only [resume] at h
    split at h
    · cases h
    · split at h
      · cases h
      · cases h
        exact hw
  | permits =>
    rw [resume_permits_waiting h]
    exact hw

theorem resume_same (h : Same key s s') (hw : s.Serves key w) :
    Alike key (s.resume t now w) (s'.resume t now w) := by
  unfold resume
  cases w with
  | token bucket rate deadline wake =>
    have htry : Alike key (s.tryToken t now bucket rate deadline)
        (s'.tryToken t now bucket rate deadline) := tryToken_same h hw
    dsimp only
    split
    · exact htry.map fun p => ([], p)
    · exact ⟨h, rfl⟩
  | turn name owner deadline =>
    have hleave := leaveLatch_same (t := t) h hw
    dsimp only
    rw [h.latch_eq hw]
    split
    · exact ⟨h.grantLatch, rfl⟩
    · split
      · exact hleave.map fun woken => (woken, Progress.done (.ok none))
      · exact ⟨h, rfl⟩
  | permits key' plan n deadline =>
    obtain rfl : key' = key := hw
    dsimp only
    rw [h.pool]
    split
    · exact ⟨h, rfl⟩
    · rename_i p _
      split
      · have htry := @tryPermits_same _ _ t now n deadline key' plan (h.setPool (p.leave t))
        exact htry.map fun p => ([], p)
      · split
        · exact ⟨h.setPool _, rfl⟩
        · exact ⟨h, rfl⟩

/-! ## Sweeps -/

theorem sweep_same (h : Same key s s') : Same key (s.sweep now) (s'.sweep now) where
  client := h.client
  bucket name hn := by
    unfold sweep
    rw [Table.get?_retain, Table.get?_retain, h.bucket name hn]
  pool := by
    unfold sweep
    rw [Table.get?_retain, Table.get?_retain, h.pool]
  latch name hn := by
    unfold sweep
    rw [Table.get?_retain, Table.get?_retain, h.latch name hn]
  holder := h.holder

end Store

end Local

/-! ## Keys of slots -/

open Local.Store in
/-- The keys of two slots have no entry in common. -/
theorem IsSlotKey.strangers {key key' : String} (h : IsSlotKey key) (h' : IsSlotKey key')
    (hne : key ≠ key') : Strangers key key' where
  ne := hne
  bucket := by
    rintro s name ⟨scope, rfl⟩ ⟨scope', he⟩
    exact hne (bucketName_inj h h' he)
  latch := by
    rintro name (rfl | rfl) (he | he)
    · exact hne he
    · exact h'.ne_lockName h he
    · exact h.ne_lockName h' he.symm
    · exact hne (lockName_inj he)

end Turnstile
