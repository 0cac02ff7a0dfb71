import Turnstile.Proofs.Admission.Account

/-!
# Release discipline

Whatever its collaborators answer, the calls of a reservation are bracketed: stages come in their
order and a failed one is the last, a substitute is asked right after its guard and once, the work
is done under exactly one lock, and every grant is released exactly once, permits before the lock,
by who granted them, and the lock after all other work. `Orderly` holds of every reservation so far,
`Bracketed` of one that has ended (`reserve_orderly`, `reserve_bracketed`).

What holds of the calls before a call is an invariant of the phases. What holds of the calls after
it is read off the courses that lead from its phase to the end: `Course.unwinding`,
`Course.of_offer`, `Course.of_locked`.
-/

namespace Turnstile.Admission

namespace Call

/-- The stage that a call belongs to. -/
def stage? : Call → Option Nat
  | flag _ => some 0
  | rate _ _ _ _ => some 1
  | lock _ _ _ => some 2
  | spareLock _ _ => some 2
  | query _ => some 3
  | permits _ _ _ _ => some 4
  | create _ => some 5
  | _ => none

/-- The answer lets a reservation go on to the next stage. A flag that cannot be read does. -/
def succeeds : (c : Call) → c.Answer → Bool
  | flag _, .ok false => false
  | flag _, _ => true
  | rate _ _ _ _, .ok true => true
  | lock _ _ _, .ok true => true
  | spareLock _ _, .ok (some _) => true
  | query _, .ok (_ :: _) => true
  | permits _ _ _ _, .ok true => true
  | create _, .ok (some _) => true
  | _, _ => false

/-- The guard whose substitute is asked. -/
def fallsBack? : Call → Option GuardName
  | rate true _ _ _ => some .rate
  | spareLock _ _ => some .lock
  | permits true _ _ _ => some .permits
  | _ => none

/-- The first call asks the substitute for what the second asked its guard for. -/
inductive Substitutes : Call → Call → Prop
  | rate (key : SlotKey) (wait : Duration) (plan : RatePlan) :
    Substitutes (.rate true key wait plan) (.rate false key wait plan)
  | lock (key : SlotKey) (owner : Ulid) (wait spareWait : Duration) :
    Substitutes (.spareLock key spareWait) (.lock key owner wait)
  | permits (key : SlotKey) (plan : PoolPlan) (demand : PoolDemand) :
    Substitutes (.permits true key plan demand) (.permits false key plan demand)

/-- The guard could not be reached. -/
def wasUnavailable : (c : Call) → c.Answer → Bool
  | rate _ _ _ _, .error e => e.isUnavailable
  | lock _ _ _, .error e => e.isUnavailable
  | permits _ _ _ _, .error e => e.isUnavailable
  | _, _ => false

/-- The calls of the work under a lock. -/
def isWork : Call → Bool
  | query _ => true
  | permits _ _ _ _ => true
  | giveBack _ _ => true
  | create _ => true
  | _ => false

def isGiveBack : Call → Bool
  | giveBack _ _ => true
  | _ => false

/-- The place of a call in a reservation. -/
def rank : Call → Nat
  | flag _ => 0
  | rate false _ _ _ => 1
  | rate true _ _ _ => 2
  | lock _ _ _ => 3
  | spareLock _ _ => 4
  | query _ => 5
  | permits false _ _ _ => 6
  | permits true _ _ _ => 7
  | create _ => 8
  | giveBack _ _ => 9
  | isHeldBy _ _ => 10
  | spareUnlock _ => 10
  | unlock _ _ => 11
  | _ => 12

end Call

def Release.isLock : Release → Bool
  | permits _ _ => false
  | _ => true

/-- The last call of a stage succeeded. Only the first stage may be left out. -/
def Passed (n : Nat) (h : History) : Prop :=
  match (h.filter fun e => e.call.stage? = some n).getLast? with
  | some e => e.call.succeeds e.answer = true
  | none => n = 0

/-- The discipline of the calls so far. -/
structure Orderly (h : History) : Prop where
  /-- A stage that failed is followed by no call of a later stage. -/
  stages : ∀ a e b, h = a ++ e :: b → ∀ m n, e.call.stage? = some m → n < m → Passed n a
  /-- A substitute is asked right after its guard could not be reached. -/
  substitutes : ∀ a e b, h = a ++ e :: b → e.call.fallsBack?.isSome →
    ∃ a' f, a = a' ++ [f] ∧ e.call.Substitutes f.call ∧ f.call.wasUnavailable f.answer = true
  /-- And it is asked once. -/
  substitutesOnce : ∀ a e b, h = a ++ e :: b → e.call.fallsBack?.isSome →
    ∀ f ∈ a ++ b, f.call.fallsBack? ≠ e.call.fallsBack?
  /-- The work is done while one lock was granted and its release has not begun. -/
  work : ∀ a e b, h = a ++ e :: b → e.call.isWork →
    ∃ l, (granted a).filter Release.isLock = [l] ∧ ∀ r ∈ begun a, r.isLock = false
  /-- Nothing is released that was not granted. -/
  ungranted : ∀ a e b, h = a ++ e :: b → ∀ r, e.call.partOf = some r → r ∈ granted a

/-- The discipline of a reservation that has ended. -/
structure Bracketed (h : History) : Prop extends Orderly h where
  /-- Permits that were granted are given back once, to who granted them, before any release of a
  lock begins. -/
  permits : ∀ a b spare key plan demand,
    h = a ++ ⟨.permits spare key plan demand, .ok true⟩ :: b →
    ∃ m x u, b = m ++ ⟨.giveBack spare key, x⟩ :: u ∧ (∀ e ∈ a ++ m, e.call.partOf = none) ∧
      ∀ e ∈ u, e.call.isGiveBack = false
  /-- A fair lock that was granted is looked at once, after all work, and unlocked if and only if
  it is still held. -/
  fairLock : ∀ a b key owner wait, h = a ++ ⟨.lock key owner wait, .ok true⟩ :: b →
    (∀ e ∈ a, e.call.partOf = none) ∧
    ∃ m x u, b = m ++ ⟨.isHeldBy key owner, x⟩ :: u ∧ (∀ e ∈ m, e.call.isWork) ∧
      (x = .ok true → ∃ y, u = [⟨.unlock key owner, y⟩]) ∧ (x ≠ .ok true → u = [])
  /-- A substitute lock that was granted is released once, after all work. -/
  spareLock : ∀ a b key wait held, h = a ++ ⟨.spareLock key wait, .ok (some held)⟩ :: b →
    (∀ e ∈ a, e.call.partOf = none) ∧
    ∃ m x, b = m ++ [⟨.spareUnlock held, x⟩] ∧ ∀ e ∈ m, e.call.isWork
  /-- All in all, what was granted is what was released, and nothing is released twice. -/
  settled : (granted h).Perm (completed h) ∧ (granted h).Nodup

section

variable {p : Policy} {q : Request} {h a b : History} {φ ψ : Phase} {c : Call} {x : c.Answer}

/-! ## The calls before a call -/

namespace Phase

/-- How many stages are passed in a phase that goes on with the next one. -/
def depth : Phase → Nat
  | rating _ => 1
  | admitted => 2
  | lockLost => 2
  | locked _ => 3
  | pooling _ _ _ => 4
  | walking _ _ _ => 5
  | _ => 0

/-- The place of the call that is due. -/
def rank : Phase → Nat
  | started => 0
  | rating false => 1
  | rating true => 2
  | admitted => 3
  | lockLost => 4
  | locked _ => 5
  | pooling _ _ false => 6
  | pooling _ _ true => 7
  | walking _ _ _ => 8
  | walked _ _ _ => 9
  | leaving _ _ => 10
  | unlocking _ _ => 11
  | ended _ => 12

theorem depth_offer_le {l : Hold} {spare : Bool} {rest : List Candidate} :
    (offer l spare rest).depth ≤ 5 := by
  cases rest <;> simp [offer, depth]

theorem rank_offer {l : Hold} {spare : Bool} {rest : List Candidate} :
    8 ≤ (offer l spare rest).rank := by
  cases rest <;> simp [offer, rank]

theorem Asks.stage (ha : φ.Asks p q c) : c.stage? = some φ.depth ∨ c.stage? = none := by
  cases ha <;> first | exact .inl rfl | exact .inr rfl

theorem Asks.rank (ha : φ.Asks p q c) : c.rank = φ.rank := by
  cases ha with
  | rate spare => cases spare <;> rfl
  | permits l cs spare => cases spare <;> rfl
  | _ => rfl

theorem Moves.depth (hm : φ.Moves p q c x ψ) :
    ψ.depth ≤ φ.depth ∨ ψ.depth = φ.depth + 1 ∧ c.stage? = some φ.depth ∧ c.succeeds x = true := by
  cases hm with
  | @enabled a ha =>
    refine .inr ⟨rfl, rfl, ?_⟩
    rcases a with e | _ | _
    · rfl
    · exact absurd rfl ha
    · rfl
  | disabled => exact .inl (Nat.le_refl _)
  | rated spare => exact .inr ⟨rfl, rfl, rfl⟩
  | rateFallsBack _ => exact .inl (Nat.le_refl _)
  | locks owner => exact .inr ⟨rfl, rfl, rfl⟩
  | lockFallsBack owner _ => exact .inl (Nat.le_refl _)
  | spareLocks held => exact .inr ⟨rfl, rfl, rfl⟩
  | finds l c cs => exact .inr ⟨rfl, rfl, rfl⟩
  | admits l cs spare =>
    cases hr : Policy.ranked cs with
    | nil => exact .inl (Nat.zero_le _)
    | cons c rest => exact .inr ⟨rfl, rfl, rfl⟩
  | permitsFallBack l cs _ => exact .inl (Nat.le_refl _)
  | passes l spare c rest now => exact .inl depth_offer_le
  | _ => exact .inl (Nat.zero_le _)

/-- Only the writer is asked more than once. -/
theorem Moves.rank (hm : φ.Moves p q c x ψ) :
    φ.rank < ψ.rank ∨ φ.rank ≤ ψ.rank ∧ c.rank = 8 := by
  cases hm with
  | passes l spare c rest now => exact .inr ⟨rank_offer, rfl⟩
  | admits l cs spare =>
    cases spare <;> exact .inl (Nat.lt_of_lt_of_le (by simp [rank]) rank_offer)
  | rated spare => cases spare <;> exact .inl (by simp [rank])
  | rateFails spare e _ => cases spare <;> exact .inl (by simp [rank])
  | permitsFail l cs spare e _ => cases spare <;> exact .inl (by simp [rank])
  | _ => exact .inl (by simp [rank])

/-- A substitute is due only after its guard could not be reached. -/
theorem Moves.fallsBack {d : Call} (hm : φ.Moves p q c x ψ) (hd : ψ.Asks p q d)
    (hs : d.fallsBack?.isSome) : d.Substitutes c ∧ c.wasUnavailable x = true := by
  cases hm with
  | rateFallsBack he => cases hd; exact ⟨.rate .., he⟩
  | lockFallsBack owner he => cases hd; exact ⟨.lock .., he⟩
  | permitsFallBack l cs he => cases hd; exact ⟨.permits .., he⟩
  | admits l cs spare =>
    cases hr : Policy.ranked cs <;> rw [hr] at hd <;> cases hd <;> cases hs
  | passes l spare c rest now => cases rest <;> cases hd <;> cases hs
  | _ => cases hd <;> cases hs

end Phase

theorem passed_snoc_of_ne {n : Nat} (hn : c.stage? ≠ some n) :
    Passed n (h ++ [⟨c, x⟩]) ↔ Passed n h := by
  simp [Passed, List.filter_append, hn]

theorem passed_snoc_self {n : Nat} (hn : c.stage? = some n) :
    Passed n (h ++ [⟨c, x⟩]) ↔ c.succeeds x = true := by
  simp [Passed, List.filter_append, hn]

theorem Course.passed (hc : Course p q (.start p) h φ) : ∀ n < φ.depth, Passed n h := by
  induction hc with
  | here =>
    intro n hn
    have : (Phase.start p).depth ≤ 1 := by unfold Phase.start; split <;> simp [Phase.depth]
    obtain rfl : n = 0 := by omega
    exact rfl
  | @ask h φ c x _ ha ih =>
    intro n hn
    -- The call is of the stage `φ.depth` or of none, so it says nothing about earlier stages.
    have old (hn : n < φ.depth) : Passed n (h ++ [⟨c, x⟩]) := by
      refine (passed_snoc_of_ne ?_).2 (ih n hn)
      rcases ha.stage with hs | hs <;> rw [hs]
      · exact fun he => Nat.ne_of_gt hn (Option.some.inj he)
      · exact nofun
    rcases (ha.moves x).depth with hd | ⟨hd, hs, hx⟩
    · exact old (Nat.lt_of_lt_of_le hn hd)
    · rcases Nat.lt_succ_iff_lt_or_eq.1 (hd ▸ hn) with hn | rfl
      · exact old hn
      · exact (passed_snoc_self hs).2 hx

/-- The calls so far come before the one that is due, and only the writer is asked again. -/
theorem Course.ranks (hc : Course p q (.start p) h φ) :
    ∀ e ∈ h, e.call.rank ≤ φ.rank ∧ (e.call.rank = φ.rank → e.call.rank = 8) := by
  induction hc with
  | here => exact fun e he => absurd he (by simp)
  | @ask h φ c x _ ha ih =>
    intro e he
    have hr : e.call.rank ≤ φ.rank ∧ (e.call.rank = φ.rank → e.call.rank = 8 ∨ e.call.rank = c.rank) := by
      rcases List.mem_append.1 he with he | he
      · exact ⟨(ih e he).1, fun h => .inl ((ih e he).2 h)⟩
      · rw [List.mem_singleton.1 he]
        exact ⟨Nat.le_of_eq ha.rank, fun _ => .inr rfl⟩
    rcases (ha.moves x).rank with hm | ⟨hm, hc⟩ <;> omega

namespace Call

theorem rank_eq_of_fallsBack {d : Call} (hc : c.fallsBack?.isSome)
    (he : d.fallsBack? = c.fallsBack?) : d.rank = c.rank ∧ c.rank ≠ 8 := by
  have rank_of {d : Call} {g : GuardName} (hd : d.fallsBack? = some g) :
      g = .rate ∧ d.rank = 2 ∨ g = .lock ∧ d.rank = 4 ∨ g = .permits ∧ d.rank = 7 := by
    cases d with
    | rate spare => cases spare <;> cases hd; exact .inl ⟨rfl, rfl⟩
    | spareLock => cases hd; exact .inr (.inl ⟨rfl, rfl⟩)
    | permits spare => cases spare <;> cases hd; exact .inr (.inr ⟨rfl, rfl⟩)
    | _ => cases hd
  obtain ⟨g, hg⟩ := Option.isSome_iff_exists.1 hc
  rcases rank_of hg with ⟨rfl, h⟩ | ⟨rfl, h⟩ | ⟨rfl, h⟩ <;>
    rcases rank_of (he.trans hg) with ⟨hg', h'⟩ | ⟨hg', h'⟩ | ⟨hg', h'⟩ <;>
    first | cases hg'; omega | cases hg'

end Call

theorem Hold.isLock_release (l : Hold) : (l.release q).isLock = true := by
  cases l <;> rfl

theorem Hold.filter_isLock (l : Hold) {spare : Bool} {key : SlotKey} :
    [l.release q, .permits spare key].filter Release.isLock = [l.release q] := by
  rw [List.filter_cons_of_pos l.isLock_release]
  rfl

theorem Cleared.release_mem {l : Hold} {g b : List Release} (hb : Cleared q l g b) :
    l.release q ∈ g := by
  rcases hb with ⟨rfl, -⟩ | ⟨spare, rfl, -⟩ <;> simp

theorem Course.orderly (hc : Course p q (.start p) h φ) : Orderly h where
  stages := by
    rintro a ⟨c, x⟩ b rfl m n hm hn
    obtain ⟨χ, h₁, h₂, -⟩ := hc.cut
    rcases h₂.stage with hs | hs
    · obtain rfl := Option.some.inj (hs.symm.trans hm)
      exact h₁.passed n hn
    · exact absurd (hs.symm.trans hm) nofun
  substitutes := by
    rintro a ⟨c, x⟩ b rfl hs
    obtain ⟨χ, h₁, h₂, -⟩ := hc.cut
    cases h₁ with
    | here =>
      unfold Phase.start at h₂
      split at h₂ <;> cases h₂ <;> cases hs
    | @ask a' φ d y h₁ ha =>
      exact ⟨a', ⟨d, y⟩, rfl, (ha.moves y).fallsBack h₂ hs⟩
  substitutesOnce := by
    rintro a ⟨c, x⟩ b rfl hs f hf hfc
    obtain ⟨hr, h8⟩ := Call.rank_eq_of_fallsBack hs hfc
    obtain ⟨χ, h₁, h₂, -⟩ := hc.cut
    rcases List.mem_append.1 hf with hf | hf
    · have := h₁.ranks f hf
      rw [← h₂.rank] at this
      dsimp only at hr h8
      omega
    · obtain ⟨b₁, b₂, rfl⟩ := List.append_of_mem hf
      obtain ⟨d, y⟩ := f
      rw [← List.cons_append, ← List.append_assoc] at hc
      obtain ⟨χ', h₁', h₂', -⟩ := hc.cut
      have := h₁'.ranks ⟨c, x⟩ (by simp)
      rw [← h₂'.rank] at this
      dsimp only at hr h8 this
      omega
  work := by
    rintro a ⟨c, x⟩ b rfl hw
    obtain ⟨χ, h₁, h₂, -⟩ := hc.cut
    have hb := h₁.books
    cases h₂ with
    | query l =>
      obtain ⟨hg, hb⟩ := hb
      exact ⟨l.release q, by simp [hg, l.isLock_release], by simp [hb]⟩
    | permits l cs spare =>
      obtain ⟨hg, hb⟩ := hb
      exact ⟨l.release q, by simp [hg, l.isLock_release], by simp [hb]⟩
    | create l spare y rest now =>
      obtain ⟨hg, hb⟩ := hb
      exact ⟨l.release q, by rw [hg, l.filter_isLock], by simp [hb]⟩
    | giveBack l spare found =>
      obtain ⟨hg, hb⟩ := hb
      exact ⟨l.release q, by rw [hg, l.filter_isLock], by simp [hb]⟩
    | _ => cases hw
  ungranted := by
    rintro a ⟨c, x⟩ b rfl r hr
    obtain ⟨χ, h₁, h₂, -⟩ := hc.cut
    have hb := h₁.books
    cases h₂ with
    | giveBack l spare found =>
      cases hr
      simp [hb.1]
    | isHeldBy owner found => cases hr; exact Cleared.release_mem (l := .fair owner) hb
    | spareUnlock held found => cases hr; exact Cleared.release_mem (q := q) (l := .spare held) hb
    | unlock owner found =>
      cases hr
      obtain ⟨b', hb', -⟩ := hb
      exact hb'.release_mem
    | _ => cases hr

/-! ## The calls after a call -/

/-- How the release of a lock goes. -/
inductive Unwinding (q : Request) : Hold → History → Prop
  | kept (owner : Ulid) (y : Except GuardError Bool) :
    Unwinding q (.fair owner)
      [⟨.isHeldBy q.slot.key owner, .ok true⟩, ⟨.unlock q.slot.key owner, y⟩]
  | lost (owner : Ulid) {x : Except GuardError Bool} : x ≠ .ok true →
    Unwinding q (.fair owner) [⟨.isHeldBy q.slot.key owner, x⟩]
  | spare (held : Held) (x : Except GuardError Unit) :
    Unwinding q (.spare held) [⟨.spareUnlock held, x⟩]

theorem Unwinding.isGiveBack {l : Hold} (hu : Unwinding q l h) :
    ∀ e ∈ h, e.call.isGiveBack = false := by
  cases hu <;> simp [Call.isGiveBack]

namespace Course

variable {r : Except AdmissionError Reservation} {l : Hold} {found : Found} {spare : Bool}

theorem of_ended (hc : Course p q (.ended r) h ψ) : h = [] := by
  rcases hc.start with ⟨rfl, -⟩ | ⟨c, a, h', rfl, ha, -⟩
  · rfl
  · cases ha

theorem unwinding (hc : Course p q (.leaving l found) h (.ended r)) : Unwinding q l h := by
  rcases hc.start with ⟨-, h⟩ | ⟨c, x, h', rfl, ha, hc⟩
  · cases h
  · generalize hψ : Phase.next p q (.leaving l found) c x = ψ at hc
    have hm := hψ ▸ ha.moves x
    cases hm with
    | holds owner found =>
      rcases hc.start with ⟨-, h⟩ | ⟨c, y, h', rfl, ha, hc⟩
      · cases h
      · cases ha
        rw [hc.of_ended]
        exact .kept owner y
    | holdsNot owner found hx => rw [hc.of_ended]; exact .lost owner hx
    | spareUnlocks held found x => rw [hc.of_ended]; exact .spare held x

theorem of_walked (hc : Course p q (.walked l spare found) h (.ended r)) :
    ∃ x u, h = ⟨.giveBack spare q.slot.key, x⟩ :: u ∧ Unwinding q l u := by
  rcases hc.start with ⟨-, h⟩ | ⟨c, x, h', rfl, ha, hc⟩
  · cases h
  · cases ha
    exact ⟨x, h', rfl, hc.unwinding⟩

theorem of_offer (rest : List Candidate) (hc : Course p q (.offer l spare rest) h (.ended r)) :
    ∃ m x u, h = m ++ ⟨.giveBack spare q.slot.key, x⟩ :: u ∧
      (∀ e ∈ m, ∃ entry, e.call = .create entry) ∧ Unwinding q l u := by
  induction rest generalizing h with
  | nil =>
    obtain ⟨x, u, rfl, hu⟩ := hc.of_walked
    exact ⟨[], x, u, rfl, by simp, hu⟩
  | cons y rest ih =>
    rcases hc.start with ⟨-, h⟩ | ⟨c, x, h', rfl, ha, hc⟩
    · cases h
    · have hcreate : ∃ entry, c = .create entry := by cases ha; exact ⟨_, rfl⟩
      have first {m : History} (hm : ∀ e ∈ m, ∃ entry, e.call = .create entry) :
          ∀ e ∈ ⟨c, x⟩ :: m, ∃ entry, e.call = .create entry := by
        intro e he
        rcases List.mem_cons.1 he with rfl | he
        · exact hcreate
        · exact hm e he
      generalize hψ : Phase.next p q (.offer l spare (y :: rest)) c x = ψ at hc
      have hm := hψ ▸ ha.moves x
      cases hm with
      | takes l spare y rest now id =>
        obtain ⟨x, u, rfl, hu⟩ := hc.of_walked
        exact ⟨[_], x, u, rfl, first (by simp), hu⟩
      | passes l spare y rest now =>
        obtain ⟨m, x, u, rfl, hm, hu⟩ := ih hc
        exact ⟨_ :: m, x, u, rfl, first hm, hu⟩
      | breaks l spare y rest now e =>
        obtain ⟨x, u, rfl, hu⟩ := hc.of_walked
        exact ⟨[_], x, u, rfl, first (by simp), hu⟩

theorem of_pooling {cs : List Candidate} (hc : Course p q (.pooling l cs spare) h (.ended r)) :
    ∃ m u, h = m ++ u ∧ (∀ e ∈ m, e.call.isWork = true) ∧ Unwinding q l u := by
  induction h generalizing spare with
  | nil =>
    rcases hc.start with ⟨-, h⟩ | ⟨c, x, h', h, -, -⟩
    · cases h
    · cases h
  | cons e h ih =>
    rcases hc.start with ⟨-, h⟩ | ⟨c, x, h', heq, ha, hc⟩
    · cases h
    · cases heq
      have hw : c.isWork = true := by cases ha; rfl
      generalize hψ : Phase.next p q (.pooling l cs spare) c x = ψ at hc
      have hm := hψ ▸ ha.moves x
      cases hm with
      | admits l cs spare =>
        obtain ⟨m, y, u, rfl, hm, hu⟩ := hc.of_offer
        refine ⟨_ :: (m ++ [_]), u, by rw [List.cons_append, List.append_assoc]; rfl, ?_, hu⟩
        simp only [List.forall_mem_cons, List.forall_mem_append]
        refine ⟨hw, fun e he => ?_, rfl, by simp⟩
        obtain ⟨entry, he⟩ := hm e he
        rw [he]
        rfl
      | permitsFallBack l cs _ =>
        obtain ⟨m, u, rfl, hm, hu⟩ := ih hc
        exact ⟨_ :: m, u, rfl, List.forall_mem_cons.2 ⟨hw, hm⟩, hu⟩
      | permitsFail l cs spare e _ =>
        exact ⟨[_], h, rfl, by simpa using hw, hc.unwinding⟩

theorem of_locked (hc : Course p q (.locked l) h (.ended r)) :
    ∃ m u, h = m ++ u ∧ (∀ e ∈ m, e.call.isWork = true) ∧ Unwinding q l u := by
  rcases hc.start with ⟨-, h⟩ | ⟨c, x, h', rfl, ha, hc⟩
  · cases h
  · have hw : c.isWork = true := by cases ha; rfl
    generalize hψ : Phase.next p q (.locked l) c x = ψ at hc
    have hm := hψ ▸ ha.moves x
    cases hm with
    | finds l c cs =>
      obtain ⟨m, u, rfl, hm, hu⟩ := hc.of_pooling
      exact ⟨_ :: m, u, rfl, List.forall_mem_cons.2 ⟨hw, hm⟩, hu⟩
    | findsNone l e _ => exact ⟨[_], h', rfl, by simpa using hw, hc.unwinding⟩

theorem partOf_eq_none (hc : Course p q (.start p) h φ) (hb : begun h = [])
    {e : Asked collaborators} (he : e ∈ h) : e.call.partOf = none := by
  refine Admission.partOf_eq_none hb ?_ he
  have := hc.begun_eq
  rw [hb] at this
  exact (List.append_eq_nil_iff.1 this.symm).1

end Course

theorem Course.bracketed {r : Except AdmissionError Reservation}
    (hc : Course p q (.start p) h (.ended r)) : Bracketed h where
  toOrderly := hc.orderly
  permits := by
    rintro a b spare key plan demand rfl
    obtain ⟨χ, h₁, h₂, h₃⟩ := hc.cut
    have hb := h₁.books
    cases h₂ with
    | permits l cs spare =>
      obtain ⟨m, y, u, rfl, hm, hu⟩ := Course.of_offer _ h₃
      refine ⟨m, y, u, rfl, fun e he => ?_, hu.isGiveBack⟩
      rcases List.mem_append.1 he with he | he
      · exact h₁.partOf_eq_none hb.2 he
      · obtain ⟨entry, he⟩ := hm e he
        rw [he]
        rfl
  fairLock := by
    rintro a b key owner wait rfl
    obtain ⟨χ, h₁, h₂, h₃⟩ := hc.cut
    have hb := h₁.books
    cases h₂ with
    | lock owner =>
      refine ⟨fun e he => h₁.partOf_eq_none hb.2 he, ?_⟩
      obtain ⟨m, u, rfl, hm, hu⟩ := Course.of_locked h₃
      cases hu with
      | kept owner y => exact ⟨m, _, _, rfl, hm, fun _ => ⟨y, rfl⟩, fun h => absurd rfl h⟩
      | lost owner hx => exact ⟨m, _, _, rfl, hm, fun h => absurd h hx, fun _ => rfl⟩
  spareLock := by
    rintro a b key wait held rfl
    obtain ⟨χ, h₁, h₂, h₃⟩ := hc.cut
    have hb := h₁.books
    cases h₂ with
    | spareLock =>
      refine ⟨fun e he => h₁.partOf_eq_none hb.2 he, ?_⟩
      obtain ⟨m, u, rfl, hm, hu⟩ := Course.of_locked h₃
      cases hu with
      | spare held y => exact ⟨m, y, rfl, hm⟩
  settled := by
    have hb : completed h = begun h := by rw [hc.begun_eq]; exact (List.append_nil _).symm
    rw [hb]
    rcases hc.books with ⟨hg, hb⟩ | ⟨l, b', hcl, hb⟩
    · simp [hg, hb]
    · rcases hcl with ⟨hg, rfl⟩ | ⟨spare, hg, rfl⟩
      · simp [hg, hb]
      · rw [hg, hb]
        exact ⟨.swap .., by cases l <;> simp [Hold.release]⟩

/-- The calls that a reservation has made so far are in order, whatever was answered. -/
theorem reserve_orderly {t : History}
    {s : Strand collaborators Release (Except AdmissionError Reservation)}
    (hl : Strand.Leads Release.program ⟨p.reserve q, []⟩ t s) : Orderly (awaited t) := by
  obtain ⟨φ, hc, -, -⟩ := reserve_course hl
  exact hc.orderly

/-- The calls of a reservation that has ended are bracketed, whatever was answered. -/
theorem reserve_bracketed {t : History}
    {s : Strand collaborators Release (Except AdmissionError Reservation)}
    {r : Except AdmissionError Reservation}
    (hl : Strand.Leads Release.program ⟨p.reserve q, []⟩ t s) (hs : s.result? = some r) :
    Bracketed (awaited t) := by
  obtain ⟨φ, hc, -, ho⟩ := reserve_course hl
  obtain ⟨-, rfl⟩ := ho r hs
  exact hc.bracketed

theorem sample_bracketed :
    (Sample.run 24).2.result? =
      some (.ok (reservation Sample.request false (1, Sample.candidate))) ∧
    Bracketed (awaited (Sample.run 24).1) := by
  have hr : (Sample.run 24).2.result? =
      some (.ok (reservation Sample.request false (1, Sample.candidate))) := by decide +kernel
  exact ⟨hr, reserve_bracketed (Sample.run_leads 24) hr⟩

end

end Turnstile.Admission
