import Mathlib.Logic.Function.Basic
import Turnstile.Proofs.Local.Store

/-!
# The latches of a store

What a look at an attempt, and whoever lets go, do to all latches of a store at once: at most one
latch changes, by entering it or leaving it. `Begun` and `Resumed` list the cases of the first and
of a later look at an attempt for a latch, with the holders as they are afterwards; every other
attempt leaves latches and holders alone.
-/

namespace Turnstile.Local

/-- The latch in whose line an attempt stands, and in whose name. -/
def Waiting.turn? : Waiting → Option (String × Option Ulid)
  | turn name owner _ => some (name, owner)
  | _ => none

namespace Latch

variable {l : Latch} {t : Ticket}

theorem isIdle_eq_true : l.isIdle = true ↔ l = .idle := by
  cases l <;> simp [isIdle]

/-- Who comes last and leaves at once leaves the line as it was. -/
theorem leave_enter (hi : l ≠ .idle) (ht : t ∉ l.members) : ((l.enter t).leave t).1 = l := by
  cases l with
  | idle => exact absurd rfl hi
  | held h line =>
    simp only [members, List.mem_cons, not_or] at ht
    simp [enter, leave, Ne.symm ht.1, List.erase_append_right _ ht.2]

end Latch

namespace Store

variable {s s' : Store} {t : Ticket} {now : Nat} {name : String} {owner : Option Ulid} {a : Attempt}

theorem latch_setLatch_eq (l : Latch) :
    (s.setLatch name l).latch = Function.update s.latch name l := by
  funext n
  by_cases h : n = name
  · subst h
    simp
  · simp [setLatch, latch, Table.get?_insert, h]

theorem latch_leaveLatch_eq :
    (s.leaveLatch name t).1.latch = Function.update s.latch name ((s.latch name).leave t).1 := by
  unfold leaveLatch
  split
  · rename_i h
    have hi : s.latch name = .idle := by simp [latch, h]
    rw [hi]
    exact (Function.update_eq_self_iff.2 hi.symm).symm
  · rename_i l h
    have hl : s.latch name = l := by simp [latch, h]
    rw [hl]
    exact latch_setLatch_eq _

theorem woken_leaveLatch : (s.leaveLatch name t).2 = ((s.latch name).leave t).2.toList := by
  unfold leaveLatch
  split
  · rename_i h
    simp [latch, h, Latch.leave]
  · rename_i l h
    simp [latch, h]

theorem latch_sweep : (s.sweep now).latch = s.latch :=
  funext fun n => (sweep_agrees : Agrees n "" s (s.sweep now)).latch

/-- All that the first look of an attempt at a latch can do. -/
inductive Begun (s : Store) (t : Ticket) (name : String) (owner : Option Ulid) :
    Store × Progress → Prop
  | refused (s' : Store) (o : Outcome) : (∀ g, o ≠ .ok (some g)) → s'.latch = s.latch →
    s'.holders = s.holders → Begun s t name owner (s', .done o)
  | granted (s' : Store) : s.latch name = .idle →
    s'.latch = Function.update s.latch name (.held t []) →
    s'.holders = (s.grantLatch t name owner).holders →
    Begun s t name owner (s', .done (.ok (some t)))
  | waits (s' : Store) (deadline : Nat) : s.latch name ≠ .idle →
    s'.latch = Function.update s.latch name ((s.latch name).enter t) → s'.holders = s.holders →
    Begun s t name owner (s', .waiting (.turn name owner deadline))

theorem Begun.take (hi : (s.latch name).isIdle = true) :
    Begun s t name owner
      ((s.setLatch name (.held t [])).grantLatch t name owner, .done (.ok (some t))) := by
  refine .granted _ (Latch.eq_idle hi) ?_ ?_
  · funext n
    rw [latch_grantLatch, latch_setLatch_eq]
  · cases owner <;> rfl

theorem enterLatch_begun (deadline : Nat) :
    Begun s t name owner (s.enterLatch t name owner deadline) := by
  unfold enterLatch
  by_cases hi : (s.latch name).isIdle = true
  · have he : (s.latch name).enter t = .held t [] := by
      rw [Latch.eq_idle hi]
      rfl
    rw [he, if_pos hi]
    exact .take hi
  · rw [if_neg hi]
    refine .waits _ deadline ?_ (latch_setLatch_eq _) rfl
    intro h
    exact hi (by rw [h]; rfl)

theorem tryLatch_begun {u : Ulid} : Begun s t name (some u) (s.tryLatch t name u) := by
  unfold tryLatch
  split
  · rename_i hi
    exact .take hi
  · exact .refused _ _ nofun rfl rfl

theorem begin_begun (ha : a.turn? = some (name, owner)) (ht : t ∉ (s.latch name).members) :
    Begun s t name owner (s.begin t now a) := by
  unfold begin
  split
  · exact .refused _ _ (by simp) rfl rfl
  · cases a with
    | token => cases ha
    | permits => cases ha
    | lock key u wait =>
      cases ha
      simp only [start]
      split
      · exact tryLatch_begun
      · exact enterLatch_begun _
    | named key wait =>
      cases ha
      simp only [start]
      have he : Begun s t (lockName key) none
          (s.enterLatch t (lockName key) none (now + wait.nanos)) := enterLatch_begun _
      generalize s.enterLatch t (lockName key) none (now + wait.nanos) = r at he
      cases he with
      | refused s' o ho hl hh => exact .refused s' o ho hl hh
      | granted s' hi hl hh => exact .granted s' hi hl hh
      | waits s' deadline hi hl hh =>
        dsimp only
        split
        · -- The wait is over before it began: the ticket leaves the line it has just entered.
          refine .refused _ _ (by simp) ?_ (holders_leaveLatch.trans hh)
          show (s'.leaveLatch (lockName key) t).1.latch = s.latch
          rw [latch_leaveLatch_eq, hl, Function.update_self, Latch.leave_enter hi ht,
            Function.update_idem, Function.update_eq_self]
        · exact .waits s' deadline hi hl hh

/-- All that a later look of an attempt at a latch can do. -/
inductive Resumed (s : Store) (t : Ticket) (name : String) (owner : Option Ulid) (deadline : Nat) :
    Store × List Ticket × Progress → Prop
  | granted (s' : Store) : (s.latch name).holder? = some t → s'.latch = s.latch →
    s'.holders = (s.grantLatch t name owner).holders →
    Resumed s t name owner deadline (s', [], .done (.ok (some t)))
  | quits (s' : Store) (woken : List Ticket) : (s.latch name).holder? ≠ some t →
    s'.latch = Function.update s.latch name ((s.latch name).leave t).1 → s'.holders = s.holders →
    woken = ((s.latch name).leave t).2.toList →
    Resumed s t name owner deadline (s', woken, .done (.ok none))
  | stays : (s.latch name).holder? ≠ some t →
    Resumed s t name owner deadline (s, [], .waiting (.turn name owner deadline))

theorem resume_resumed (deadline : Nat) :
    Resumed s t name owner deadline (s.resume t now (.turn name owner deadline)) := by
  unfold resume
  dsimp only
  split
  · rename_i hh
    exact .granted _ hh (funext fun _ => latch_grantLatch) rfl
  · rename_i hh
    split
    · exact .quits _ _ hh latch_leaveLatch_eq holders_leaveLatch woken_leaveLatch
    · exact .stays hh

/-! ## Letting go of a fair lock -/

theorem unlock_of_mem {u : Ulid} (h : s.holders.get? name = some (u, t)) :
    s.unlock name u = ((({ s with holders := s.holders.erase name } : Store).leaveLatch name t).1,
      true, ((s.latch name).leave t).2.toList) := by
  have hw : (({ s with holders := s.holders.erase name } : Store).leaveLatch name t).2 =
      ((s.latch name).leave t).2.toList := woken_leaveLatch
  rw [unlock, h, ← hw]
  exact if_pos rfl

theorem unlock_of_not_mem {u : Ulid} (h : ∀ t, s.holders.get? name ≠ some (u, t)) :
    s.unlock name u = (s, false, []) := by
  unfold unlock
  split
  · rename_i v t hv
    refine if_neg ?_
    rintro rfl
    exact h t hv
  · rfl

/-! ## What others do -/

/-- Latches and holders stay as they are. -/
structure Beside (s s' : Store) : Prop where
  latch : s'.latch = s.latch
  holders : s'.holders = s.holders

theorem Beside.refl : Beside s s := ⟨rfl, rfl⟩

theorem tryToken_beside {bucket : String} {plan : RatePlan} {deadline : Nat} :
    Beside s (s.tryToken t now bucket plan deadline).1 ∧
      ∀ w, (s.tryToken t now bucket plan deadline).2 = .waiting w → w.turn? = none := by
  have hb : Beside s (s.takeToken bucket plan now).1 := ⟨rfl, rfl⟩
  unfold tryToken
  split
  · rename_i s' hs
    rw [hs] at hb
    exact ⟨hb, nofun⟩
  · rename_i s' d hs
    rw [hs] at hb
    split
    · refine ⟨hb, fun w hw => ?_⟩
      cases hw
      rfl
    · exact ⟨hb, nofun⟩

theorem tryPermits_beside {key : String} {plan : PoolPlan} {n deadline : Nat} :
    Beside s (s.tryPermits t now key plan n deadline).1 ∧
      ∀ w, (s.tryPermits t now key plan n deadline).2 = .waiting w → w.turn? = none := by
  have hb : Beside s (s.takePermits key plan n now).1 := ⟨rfl, rfl⟩
  unfold tryPermits
  split
  · rename_i s' hs
    rw [hs] at hb
    exact ⟨hb, nofun⟩
  · rename_i s' hs
    rw [hs] at hb
    exact ⟨hb, nofun⟩
  · rename_i s' hs
    rw [hs] at hb
    split
    · exact ⟨hb, nofun⟩
    · refine ⟨⟨hb.latch, hb.holders⟩, fun w hw => ?_⟩
      cases hw
      rfl

theorem begin_beside (ha : a.turn? = none) :
    Beside s (s.begin t now a).1 ∧ ∀ w, (s.begin t now a).2 = .waiting w → w.turn? = none := by
  unfold begin
  split
  · exact ⟨.refl, nofun⟩
  · cases a with
    | token key wait plan => exact tryToken_beside
    | permits key plan demand => exact tryPermits_beside
    | lock => cases ha
    | named => cases ha

theorem resume_beside {w : Waiting} (hw : w.turn? = none) :
    Beside s (s.resume t now w).1 ∧
      ∀ w', (s.resume t now w).2.2 = .waiting w' → w'.turn? = none := by
  unfold resume
  cases w with
  | turn => cases hw
  | token bucket plan deadline wake =>
    dsimp only
    split
    · exact tryToken_beside
    · refine ⟨.refl, fun w' hw' => ?_⟩
      cases hw'
      rfl
  | permits key plan n deadline =>
    dsimp only
    split
    · exact ⟨.refl, nofun⟩
    · rename_i p hp
      split
      · obtain ⟨⟨hl, hh⟩, hn⟩ := @tryPermits_beside
          { s with pools := s.pools.insert key (p.leave t) } t now key plan n deadline
        exact ⟨⟨hl, hh⟩, hn⟩
      · split
        · exact ⟨⟨rfl, rfl⟩, nofun⟩
        · refine ⟨.refl, fun w' hw' => ?_⟩
          cases hw'
          rfl

theorem cancel_beside {w : Waiting} (hw : w.turn? = none) : Beside s (s.cancel t w).1 := by
  cases w with
  | turn => cases hw
  | token => exact .refl
  | permits => exact ⟨rfl, rfl⟩

theorem giveBack_beside {key : String} : Beside s (s.giveBack key now).1 := by
  unfold giveBack
  split <;> exact ⟨rfl, rfl⟩

theorem sweep_beside : Beside s (s.sweep now) := ⟨latch_sweep, rfl⟩

end Store

end Turnstile.Local
