import Mathlib.Logic.Relation
import Turnstile.Proofs.Admission.Turns

/-!
# Reservations of one slot, one after the other

Reservations that all want the same slot at one desk, in any order of their steps. What those that
obtain the lock return is what they would return one after the other, in the order in which they
were granted it (`reach_serialized`): each takes the first candidate that is left, and none is left
after the last one. Only a reservation that would wait for permits longer than any pool accepts is
turned away, and takes none; `impatient_turned_away` is a run in which this happens.
-/

namespace Turnstile.Admission

/-- The lock was let go, or it was found lost. -/
def Call.unlocks : (c : Call) → c.Answer → Bool
  | unlock _ _, _ => true
  | spareUnlock _, _ => true
  | isHeldBy _ _, .ok held => !held
  | isHeldBy _ _, _ => true
  | _, _ => false

/-- The lock was granted and has not been let go. -/
def holdsLock (h : History) : Bool :=
  (h.any fun e => e.call.locks e.answer) && !h.any fun e => e.call.unlocks e.answer

section

variable {p : Policy} {q : Request} {h : History} {φ ψ : Phase} {c : Call} {a : c.Answer}

/-- The lock is granted to who has none and let go by who has it, at the end. -/
theorem Phase.Moves.lock (hm : φ.Moves p q c a ψ) :
    (c.locks a = true ∧ c.unlocks a = false ∧ φ.hold?.isSome = false ∧ ψ.hold?.isSome = true) ∨
      (c.locks a = false ∧ c.unlocks a = true ∧ φ.hold?.isSome = true ∧ ∃ r, ψ = .ended r) ∨
      (c.locks a = false ∧ c.unlocks a = false ∧ φ.hold?.isSome = ψ.hold?.isSome) := by
  have hoffer (l : Hold) (spare : Bool) (rest : List Candidate) :
      (offer l spare rest).hold?.isSome = true := by
    cases rest <;> rfl
  cases hm with
  | locks owner => exact .inl ⟨rfl, rfl, rfl, rfl⟩
  | spareLocks held => exact .inl ⟨rfl, rfl, rfl, rfl⟩
  | @lockFails owner a e ha =>
    rcases a with e' | _ | _
    · exact .inr (.inr ⟨rfl, rfl, rfl⟩)
    · exact .inr (.inr ⟨rfl, rfl, rfl⟩)
    · cases ha
  | @spareLockFails a e ha =>
    rcases a with e' | _ | held
    · exact .inr (.inr ⟨rfl, rfl, rfl⟩)
    · exact .inr (.inr ⟨rfl, rfl, rfl⟩)
    · cases ha
  | @holdsNot owner found a ha =>
    rcases a with e' | _ | _
    · exact .inr (.inl ⟨rfl, rfl, rfl, _, rfl⟩)
    · exact .inr (.inl ⟨rfl, rfl, rfl, _, rfl⟩)
    · exact absurd rfl ha
  | spareUnlocks held found => exact .inr (.inl ⟨rfl, rfl, rfl, _, rfl⟩)
  | unlocks owner found => exact .inr (.inl ⟨rfl, rfl, rfl, _, rfl⟩)
  | admits l cs spare => exact .inr (.inr ⟨rfl, rfl, (hoffer ..).symm⟩)
  | passes l spare c rest now => exact .inr (.inr ⟨rfl, rfl, (hoffer ..).symm⟩)
  | _ => exact .inr (.inr ⟨rfl, rfl, rfl⟩)

theorem Phase.Moves.not_ended {r : Except AdmissionError Reservation} (hm : φ.Moves p q c a ψ) :
    φ ≠ .ended r := by
  cases hm <;> exact nofun

/-- What the history says about the lock in a phase. -/
structure Phase.Locks (h : History) (φ : Phase) : Prop where
  holds : holdsLock h = φ.hold?.isSome
  fresh : φ.hold?.isSome = false → (∀ r, φ ≠ .ended r) →
    (h.any fun e => e.call.locks e.answer) = false ∧
      (h.any fun e => e.call.unlocks e.answer) = false

theorem Phase.Moves.locks_snoc (hm : φ.Moves p q c a ψ) (hl : φ.Locks h) :
    ψ.Locks (h ++ [⟨c, a⟩]) := by
  obtain ⟨hh, hf⟩ := hl
  have hf' := fun hn => hf hn fun r => hm.not_ended
  rcases hm.lock with ⟨h₁, h₂, h₃, h₄⟩ | ⟨h₁, h₂, h₃, r, rfl⟩ | ⟨h₁, h₂, h₃⟩
  · obtain ⟨hl, hu⟩ := hf' h₃
    refine ⟨?_, fun hn => ?_⟩
    · simp [holdsLock, hl, hu, h₁, h₂, h₄]
    · rw [h₄] at hn
      cases hn
  · refine ⟨?_, fun _ hn => absurd rfl (hn r)⟩
    simp [holdsLock, h₂, Phase.hold?]
  · rw [h₃] at hh hf'
    refine ⟨?_, fun hn _ => ?_⟩
    · rw [← hh]
      simp [holdsLock, h₁, h₂]
    · simpa [h₁, h₂] using hf' hn

theorem Course.locks (hc : Course p q (.start p) h φ) : φ.Locks h := by
  induction hc with
  | here =>
    refine ⟨?_, fun _ _ => ⟨rfl, rfl⟩⟩
    unfold Phase.start
    split <;> rfl
  | ask a _ ha ih => exact (ha.moves a).locks_snoc ih

theorem holdsLock_awaited (h : History) : holdsLock (awaited h) = holdsLock h := by
  have ht (e : Asked collaborators) :
      (e.call.isAwaited && e.call.locks e.answer) = e.call.locks e.answer ∧
        (e.call.isAwaited && e.call.unlocks e.answer) = e.call.unlocks e.answer := by
    obtain ⟨c, a⟩ := e
    cases c <;> exact ⟨rfl, rfl⟩
  unfold holdsLock awaited
  rw [List.any_filter, List.any_filter]
  simp only [ht]

theorem reserve_holdsLock {t : History}
    {s : Strand collaborators Release (Except AdmissionError Reservation)}
    (hl : Strand.Leads Release.program ⟨p.reserve q, []⟩ t s) :
    holdsLock t = (Phase.along p q t).hold?.isSome := by
  rw [← holdsLock_awaited]
  exact (reserve_along hl).1.locks.holds

end

/-! ## What holds of every run -/

/-- The desk before anybody came: the candidates have different numbers, nobody holds the lock, and
all permits are there. -/
structure Desk.Fresh (spare : Bool) (slot : Slot) (d : Desk) : Prop where
  distinct : Ledger.Distinct d.ledger.rows
  idle : d.store.latch (latchName spare slot.key) = .idle
  rested : d.store.Rested slot.key.text

/-- The wait for permits of a thread is one that a pool accepts. -/
def Thread.isPatient {O : Office} : Thread O → Bool
  | ⟨.reserve p _, _, _, _⟩ => p.isPatient
  | ⟨.release _, _, _, _⟩ => false

/-- How many of the first `n` that were granted the lock take a candidate, if one is left. -/
def Crowd.takersBefore {O : Office} (w : Crowd O) (n : Nat) : Nat :=
  ((grantees w.log).take n).countP fun i => w.threads[i]?.any Thread.isPatient

/-- Reservations that take their turns: `free` are the candidates by ascending number, and `first`
is the number of the next occupancy, before anybody came. -/
structure Serialized (spare : Bool) (free : List Candidate) (first : UInt64) {O : Office}
    (w : Crowd O) : Prop where
  /-- One thread at most holds the lock. -/
  exclusive : ∀ i j, holdsLock (own i w.log) = true → holdsLock (own j w.log) = true → i = j
  /-- Who is about to query, to ask for permits, to offer a candidate or to give permits back holds
  the lock. -/
  guarded : ∀ (i : Nat) th c, w.threads[i]? = some th → th.strand.call? = some c →
    c.isWork = true → holdsLock (own i w.log) = true
  /-- Nobody is granted the lock twice. -/
  once : (grantees w.log).Nodup
  /-- Who was granted the lock can go on to the end, whatever the others wait for. -/
  finishes : ∀ i ∈ grantees w.log, ∃ w', Relation.ReflTransGen Crowd.Step w w' ∧
    (∀ j, j ≠ i → w'.threads[j]? = w.threads[j]?) ∧
    ∃ th, w'.threads[i]? = some th ∧ th.outcome?.isSome = true
  /-- The `n`-th that was granted the lock takes the first candidate that is left. -/
  outcomes : ∀ n i p q strand v b res, (grantees w.log)[n]? = some i →
    w.threads[i]? = some ⟨.reserve p q, strand, v, b⟩ → strand.result? = some res →
    res = (share free first p (w.takersBefore n)).map (reservation q spare)

section

variable {spare : Bool} {slot : Slot} {d d' : Desk} {w : Crowd (.shared spare slot.key)}
  {i : Nat} {p : Policy} {q : Request}

/-- What the room knows of a crowd that started at a fresh desk. -/
theorem Crowd.Reach.room (h : Crowd.Reach d w) (hd : d.Fresh spare slot) :
    ∃ r cur, Mirrors w r ∧ Room.Tidy spare slot d.ledger r cur := by
  obtain ⟨r, hm, hr⟩ := h.mirrored
  obtain ⟨cur, ht⟩ := hr.tidy hd.distinct (by rw [hd.idle]; exact nofun) hd.rested
  exact ⟨r, cur, hm, ht⟩

theorem Mirrors.holdsLock {r : Room} (hl : w.Led) (hm : Mirrors w r)
    {th : Thread (.shared spare slot.key)} (hi : w.threads[i]? = some th) :
    ∃ s, r.seats[i]? = some s ∧ Sits (own i w.log) th s ∧
      holdsLock (own i w.log) = s.phase.hold?.isSome := by
  obtain ⟨s, h₁, h₂⟩ := hm.seats i th hi
  refine ⟨s, h₁, h₂, ?_⟩
  have hlead := hl.leads i th hi
  obtain ⟨task, strand, pending, dropped⟩ := th
  obtain rfl : task = .reserve s.policy s.request := h₂.task
  rw [h₂.phase]
  exact reserve_holdsLock hlead

theorem Mirrors.inside {r : Room} {cur : Option Visit} (hl : w.Led) (hm : Mirrors w r)
    (ht : Room.Tidy spare slot d.ledger r cur) (hh : Admission.holdsLock (own i w.log) = true) :
    ∃ u, cur = some u ∧ u.seat = i := by
  cases hi : w.threads[i]? with
  | none =>
    have : own i w.log = [] := by
      refine List.eq_nil_iff_forall_not_mem.2 fun e he => ?_
      exact absurd (hl.bound _ (mem_own.1 he)) (Nat.not_lt.2 (List.getElem?_eq_none_iff.1 hi))
    rw [this] at hh
    cases hh
  | some th =>
    obtain ⟨s, h₁, -, h₂⟩ := hm.holdsLock hl hi
    rw [h₂] at hh
    exact ht.alone i s h₁ (Option.isSome_iff_ne_none.1 hh)

/-! ### Going on to the end -/

theorem Desk.Aside.refl : d.Aside spare slot.key d := ⟨.refl, rfl, Nat.le_refl _, Nat.le_refl _⟩

/-- Who is inside is answered whenever its call is looked at. -/
theorem Room.Tidy.answerable {r : Room} {cur : Option Visit} {l₀ : Ledger} {s : Seat} {c : Call}
    (h : Room.Tidy spare slot l₀ r cur) (hi : r.seats[i]? = some s)
    (hh : s.phase.hold?.isSome = true) (ha : s.phase.Asks s.policy s.request c) :
    ∃ d a, r.desk.Serves spare slot.key (s.waits.map (·.2)) d c (.answered a) := by
  obtain ⟨φ, hφ⟩ : ∃ φ, s.phase = φ := ⟨_, rfl⟩
  rw [hφ] at ha hh
  cases ha with
  | flag => cases hh
  | rate b => cases hh
  | lock owner => cases hh
  | spareLock => cases hh
  | permits l cs b =>
    cases b with
    | true => exact ⟨_, .ok true, .refl, _, rfl⟩
    | false =>
      obtain ⟨a, -, ha, -⟩ := h.permits hi hφ ⟨rfl, rfl⟩
      exact ⟨_, a, rfl, ha.symm⟩
  | giveBack l b found =>
    cases b with
    | true => exact ⟨_, .ok (), .refl, _, rfl⟩
    | false => exact ⟨_, _, rfl, rfl⟩
  | _ => exact ⟨_, _, rfl, rfl⟩

theorem Desk.serves_of_not_isAwaited {c : Call} {v : Slip} (hc : c.isAwaited = false) :
    ∃ a, d.Serves spare slot.key v d c (.answered a) := by
  cases c with
  | wallClock => exact ⟨default, .refl, _, rfl⟩
  | newOwner => exact ⟨.ofNat 0, .refl, _, rfl⟩
  | publish e => exact ⟨(), .refl, _, rfl⟩
  | note n => exact ⟨(), .refl, _, rfl⟩
  | _ => cases hc

theorem Crowd.Reach.answer (h : Crowd.Reach d w) (hd : d.Fresh spare slot) {c : Call}
    {th : Thread (.shared spare slot.key)} (hi : w.threads[i]? = some th)
    (hk : th.task = .reserve p q)
    (ha : (Phase.along p q (own i w.log)).Asks p q c)
    (hh : (Phase.along p q (own i w.log)).hold?.isSome = true) :
    ∃ d' a, w.state.Serves spare slot.key th.pending.join d' c (.answered a) := by
  obtain ⟨r, cur, hm, ht⟩ := h.room hd
  obtain ⟨s, h₁, h₂⟩ := hm.seats i th hi
  obtain ⟨rfl, rfl⟩ : p = s.policy ∧ q = s.request := by
    have := hk.symm.trans h₂.task
    cases this
    exact ⟨rfl, rfl⟩
  rw [← h₂.phase] at ha hh
  rw [← h₂.slip, ← hm.desk]
  exact ht.answerable h₁ hh ha

/-- A thread that is inside or at its end goes on to its end. The induction is on what is left of
its program. -/
theorem Follows.finishes {Q : Except AdmissionError Reservation → Phase → List Release → Prop}
    {φ : Phase} {s : Strand collaborators Release (Except AdmissionError Reservation)}
    {v : Option Slip} (hf : Follows p q Q φ s) (hd : d.Fresh spare slot) (h : Crowd.Reach d w)
    (hi : w.threads[i]? = some ⟨.reserve p q, s, v, false⟩)
    (hφ : φ = .along p q (own i w.log)) (hh : φ.hold?.isSome = true ∨ ∃ r, φ = .ended r) :
    ∃ w', Relation.ReflTransGen Crowd.Step w w' ∧ (∀ j, j ≠ i → w'.threads[j]? = w.threads[j]?) ∧
      ∃ th, w'.threads[i]? = some th ∧ th.outcome?.isSome = true := by
  have go {w w' : Crowd (.shared spare slot.key)} {th : Thread (.shared spare slot.key)}
      (hs : w.Step w') (ht : w'.threads = w.threads.set i th) :
      (∃ w'', Relation.ReflTransGen Crowd.Step w' w'' ∧
        (∀ j, j ≠ i → w''.threads[j]? = w'.threads[j]?) ∧
        ∃ th, w''.threads[i]? = some th ∧ th.outcome?.isSome = true) →
      ∃ w'', Relation.ReflTransGen Crowd.Step w w'' ∧
        (∀ j, j ≠ i → w''.threads[j]? = w.threads[j]?) ∧
        ∃ th, w''.threads[i]? = some th ∧ th.outcome?.isSome = true := by
    rintro ⟨w'', hs', hj, hth⟩
    refine ⟨w'', hs'.head hs, fun j hne => ?_, hth⟩
    rw [hj j hne, ht, List.getElem?_set_ne hne.symm]
  induction hf generalizing w v with
  | @done φ r owed hQ => exact ⟨w, .refl, fun _ _ => rfl, _, hi, rfl⟩
  | @call φ c k owed hok hk ih =>
    have hlt := (List.getElem?_eq_some_iff.1 hi).1
    obtain ⟨d', a, hs, hnext⟩ : ∃ d' a, w.state.Serves spare slot.key v.join d' c (.answered a) ∧
        ((φ.advance p q ⟨c, a⟩).hold?.isSome = true ∨ ∃ r, φ.advance p q ⟨c, a⟩ = .ended r) := by
      cases hc : c.isAwaited with
      | false =>
        obtain ⟨a, ha⟩ := Desk.serves_of_not_isAwaited (d := w.state) (v := v.join) hc
        refine ⟨_, a, ha, ?_⟩
        have : φ.advance p q ⟨c, a⟩ = φ := if_neg (by simp [hc])
        rwa [this]
      | true =>
        have ha := (hok hc).1
        have hin : φ.hold?.isSome = true := by
          rcases hh with hh | ⟨r, rfl⟩
          · exact hh
          · cases ha
        obtain ⟨d', a, hs⟩ := h.answer hd hi rfl (hφ ▸ ha) (hφ ▸ hin)
        refine ⟨d', a, hs, ?_⟩
        have : φ.advance p q ⟨c, a⟩ = φ.next p q c a := if_pos hc
        rw [this]
        rcases (ha.moves a).lock with ⟨-, -, -, hψ⟩ | ⟨-, -, -, hψ⟩ | ⟨-, -, hψ⟩
        · exact .inl hψ
        · exact .inr hψ
        · exact .inl (hψ ▸ hin)
    have hstep : Crowd.Step w ⟨d', w.threads.set i ⟨.reserve p q, ⟨k a, owed⟩, none, false⟩,
        w.log ++ [(i, ⟨c, a⟩)]⟩ :=
      .answer w i ⟨.reserve p q, ⟨.call c k, owed⟩, v, false⟩ c a ⟨k a, owed⟩ d' hi rfl
        (.call c k owed a) (.inl hs)
    refine go hstep rfl (ih a (h.step hstep) (List.getElem?_set_self hlt) ?_ hnext)
    rw [own_snoc_self, along_snoc, ← hφ]
  | @owe φ r code owed hp ih =>
    have hlt := (List.getElem?_eq_some_iff.1 hi).1
    have hstep : Crowd.Step w
        { w with threads := w.threads.set i ⟨.reserve p q, ⟨code, r :: owed⟩, v, false⟩ } :=
      .silent w i ⟨.reserve p q, ⟨.owe r code, owed⟩, v, false⟩ ⟨code, r :: owed⟩ hi rfl
        (.owe r code owed)
    exact go hstep rfl (ih (h.step hstep) (List.getElem?_set_self hlt) hφ hh)
  | @settle φ r code owed hp ih =>
    have hlt := (List.getElem?_eq_some_iff.1 hi).1
    have hstep : Crowd.Step w { w with
        threads := w.threads.set i
          ⟨.reserve p q, ⟨(Release.program r).bind fun _ => code, owed⟩, v, false⟩ } :=
      .silent w i ⟨.reserve p q, ⟨.settle code, r :: owed⟩, v, false⟩ ⟨_, owed⟩ hi rfl
        (.settle r code owed)
    exact go hstep rfl (ih (h.step hstep) (List.getElem?_set_self hlt) hφ hh)
  | @clear φ code hp ih =>
    have hlt := (List.getElem?_eq_some_iff.1 hi).1
    have hstep : Crowd.Step w
        { w with threads := w.threads.set i ⟨.reserve p q, ⟨code, []⟩, v, false⟩ } :=
      .silent w i ⟨.reserve p q, ⟨.settle code, []⟩, v, false⟩ ⟨code, []⟩ hi rfl (.clear code)
    exact go hstep rfl (ih (h.step hstep) (List.getElem?_set_self hlt) hφ hh)

/-! ### The turns -/

theorem Crowd.Reach.exclusive (h : Crowd.Reach d w) (hd : d.Fresh spare slot) {i j : Nat}
    (hi : holdsLock (own i w.log) = true) (hj : holdsLock (own j w.log) = true) : i = j := by
  obtain ⟨r, cur, hm, ht⟩ := h.room hd
  obtain ⟨u, hu, rfl⟩ := hm.inside h.led ht hi
  obtain ⟨u', hu', rfl⟩ := hm.inside h.led ht hj
  cases hu.symm.trans hu'
  rfl

theorem Crowd.Reach.guarded (h : Crowd.Reach d w) (hd : d.Fresh spare slot) {c : Call}
    {th : Thread (.shared spare slot.key)} (hi : w.threads[i]? = some th)
    (hc : th.strand.call? = some c) (hw : c.isWork = true) : holdsLock (own i w.log) = true := by
  obtain ⟨r, cur, hm, -⟩ := h.room hd
  obtain ⟨s, -, h₂, h₃⟩ := hm.holdsLock h.led hi
  have ha : c.isAwaited = true := by cases c <;> first | rfl | cases hw
  have hasks := h₂.asks h.led hi hc ha
  rw [h₃]
  generalize s.phase = φ at hasks
  cases hasks <;> first | rfl | cases hw

theorem Phase.Fits.inside_or_ended {φ : Phase} {rest : List Candidate} {found : Found} {s : Seat}
    (h : φ.Fits spare rest found s) : φ.hold?.isSome = true ∨ ∃ r, φ = .ended r := by
  cases φ <;> first | exact .inl rfl | exact .inr ⟨_, rfl⟩ | exact h.elim

theorem Mirrors.takersBefore {r : Room} {cur : Option Visit} (hm : Mirrors w r)
    (ht : Room.Tidy spare slot d.ledger r cur) (n : Nat) :
    w.takersBefore n = patients (r.order.take n) := by
  unfold Crowd.takersBefore patients
  rw [← hm.order, ← List.map_take, List.countP_map]
  refine List.countP_congr fun x hx => ?_
  obtain ⟨s, hs, hb⟩ := ht.known x (List.mem_of_mem_take hx)
  obtain ⟨th, hth⟩ : ∃ th, w.threads[x.1]? = some th :=
    ⟨_, List.getElem?_eq_getElem (hm.length ▸ (List.getElem?_eq_some_iff.1 hs).1)⟩
  obtain ⟨s', hs', hsits⟩ := hm.seats x.1 th hth
  cases hs.symm.trans hs'
  obtain ⟨task, strand, pending, dropped⟩ := th
  obtain rfl : task = .reserve s.policy s.request := hsits.task
  rw [Function.comp_apply, hth, hb]
  rfl

theorem Crowd.Reach.outcome (h : Crowd.Reach d w) (hd : d.Fresh spare slot) {n : Nat}
    {strand : Strand collaborators Release (Except AdmissionError Reservation)} {v : Option Slip}
    {b : Bool} {res : Except AdmissionError Reservation} (hn : (grantees w.log)[n]? = some i)
    (hi : w.threads[i]? = some ⟨.reserve p q, strand, v, b⟩) (hr : strand.result? = some res) :
    res = (share (Policy.ranked (d.ledger.query slot)) d.ledger.nextId p (w.takersBefore n)).map
      (reservation q spare) := by
  obtain ⟨r, cur, hm, ht⟩ := h.room hd
  obtain ⟨s, h₁, h₂⟩ := hm.seats i _ hi
  have hphase := h₂.phase
  obtain ⟨rfl, rfl⟩ : p = s.policy ∧ q = s.request := by
    have := h₂.task
    cases this
    exact ⟨rfl, rfl⟩
  rw [((reserve_along (h.led.leads i _ hi)).2.2 res hr).2] at hphase
  rw [← hm.order, List.getElem?_map] at hn
  obtain ⟨x, hx, rfl⟩ := Option.map_eq_some_iff.1 hn
  have hf := ht.fits n x s hx h₁
  rw [hphase, ← hm.takersBefore ht] at hf
  exact hf

end

/-- Whatever the order of their steps, reservations of one slot take their turns. -/
theorem reach_serialized {spare : Bool} {slot : Slot} {d : Desk}
    {w : Crowd (.shared spare slot.key)} (hd : d.Fresh spare slot) (h : Crowd.Reach d w) :
    Serialized spare (Policy.ranked (d.ledger.query slot)) d.ledger.nextId w where
  exclusive i j := h.exclusive hd
  guarded i th c := h.guarded hd
  once := by
    obtain ⟨r, cur, hm, ht⟩ := h.room hd
    exact hm.order ▸ ht.once
  finishes i hi := by
    obtain ⟨r, cur, hm, ht⟩ := h.room hd
    rw [← hm.order] at hi
    obtain ⟨x, hx, rfl⟩ := List.mem_map.1 hi
    obtain ⟨n, hn⟩ := List.mem_iff_getElem?.1 hx
    obtain ⟨s, hs, -⟩ := ht.known x hx
    obtain ⟨th, hth⟩ : ∃ th, w.threads[x.1]? = some th :=
      ⟨_, List.getElem?_eq_getElem (hm.length ▸ (List.getElem?_eq_some_iff.1 hs).1)⟩
    obtain ⟨s', hs', hsits⟩ := hm.seats x.1 th hth
    cases hs.symm.trans hs'
    have hin := (ht.fits n x s hn hs).inside_or_ended
    -- The thread may be anywhere in its reservation; `leads` tells what is left of it.
    have hlead := h.led.leads _ _ hth
    rw [hsits.phase] at hin
    obtain ⟨task, strand, pending, dropped⟩ := th
    obtain rfl : task = .reserve s.policy s.request := hsits.task
    obtain rfl : dropped = false := hsits.dropped
    exact Follows.finishes (reserve_follows.leads hlead) hd h hth rfl hin
  outcomes n i p q strand v b res := h.outcome hd

/-! ## Two runs at one desk -/

namespace Sample

/-- The desk answers for itself, and everybody else well. -/
def serve (d : Desk) : (c : Call) → Option Slip → Option (Desk × Look c.Answer Slip)
  | .lock k owner wait, v =>
    let r := d.attempt (.lock k.text owner wait) v.join
    some (r.1, r.2.map (Except.map Option.isSome))
  | .permits false k plan demand, v =>
    let r := d.attempt (.permits k.text plan demand) v.join
    some (r.1, r.2.map (Except.map Option.isSome))
  | .isHeldBy k owner, _ => some (d, .answered (.ok (d.store.isHeldBy k.text owner)))
  | .unlock k owner, _ =>
    let r := d.store.unlock k.text owner
    some ({ d with store := r.1 }, .answered (.ok r.2.1))
  | .giveBack false k, _ =>
    some ({ d with store := (d.store.giveBack k.text d.now).1 }, .answered (.ok ()))
  | .query slot, _ => some (d, .answered (.ok (d.ledger.query slot)))
  | .create entry, _ =>
    some ({ d with ledger := (d.ledger.create entry).1 }, .answered (d.ledger.create entry).2)
  | .spareLock _ _, _ => none
  | .spareUnlock _, _ => none
  | c, _ => some (d, .answered (answer c))

theorem looks_of_serve (d : Desk) (c : Call) (v : Option Slip) (d' : Desk)
    (look : Look c.Answer Slip) (h : serve d c v = some (d', look)) :
    (Office.shared false request.slot.key).Looks d c v d' look := by
  left
  cases c with
  | lock => cases h; exact ⟨rfl, rfl⟩
  | permits b =>
    cases b <;> cases h
    · exact ⟨rfl, rfl⟩
    · exact ⟨.refl, _, rfl⟩
  | giveBack b =>
    cases b <;> cases h
    · exact ⟨rfl, rfl⟩
    · exact ⟨.refl, _, rfl⟩
  | isHeldBy => cases h; exact ⟨rfl, rfl⟩
  | unlock => cases h; exact ⟨rfl, rfl⟩
  | query => cases h; exact ⟨rfl, rfl⟩
  | create => cases h; exact ⟨rfl, rfl⟩
  | spareLock => cases h
  | spareUnlock => cases h
  | _ => cases h; exact ⟨.refl, _, rfl⟩

/-- A desk with one table. -/
def desk : Desk :=
  ⟨.fresh (.ofNat 1), Ledger.empty.addTables request.slot 7 1, 0, 0⟩

theorem desk_fresh : desk.Fresh false request.slot where
  distinct := by show List.Nodup _; decide
  idle := rfl
  rested p hp := by cases hp

/-- Two reservations of one table, by `p`, which take their turns in circles. -/
def rush (p : Policy) (n : Nat) : Crowd (.shared false request.slot.key) :=
  ((List.range n).map (· % 2)).foldl (Crowd.turn serve)
    ⟨desk, [.start (.reserve p request), .start (.reserve p request)], []⟩

theorem reach_rush (p : Policy) (n : Nat) : Crowd.Reach desk (rush p n) := by
  have h₁ := Crowd.Reach.start (O := .shared false request.slot.key) (σ := desk)
  have h₂ := h₁.step (.arrive _ p request rfl)
  have h₃ := h₂.step (.arrive _ p request rfl)
  exact h₃.turns looks_of_serve _

/-- A controller that would wait for permits longer than any pool accepts. -/
def impatient : Policy :=
  { policy with settings := { policy.settings with permitWait := .ofSecs 31 } }

end Sample

theorem sample_serialized :
    grantees (Sample.rush Sample.policy 120).log = [0, 1] ∧
    (Sample.rush Sample.policy 120).threads.map Thread.outcome? =
      [some (.ok ⟨1, 7, 1, Sample.request.slot.key, false⟩), some (.error .noCandidates)] ∧
    Serialized false (Policy.ranked (Sample.desk.ledger.query Sample.request.slot))
      Sample.desk.ledger.nextId (Sample.rush Sample.policy 120) :=
  ⟨by decide +kernel, by decide +kernel,
    reach_serialized Sample.desk_fresh (Sample.reach_rush Sample.policy 120)⟩

/-- It is not true that the `n`-th that is granted the lock always takes the `n`-th candidate. -/
theorem impatient_turned_away :
    ¬ ∀ (spare : Bool) (slot : Slot) (d : Desk) (w : Crowd (.shared spare slot.key)),
      d.Fresh spare slot → Crowd.Reach d w →
      ∀ (n i : Nat) th res, (grantees w.log)[n]? = some i → w.threads[i]? = some th →
        th.outcome? = some res →
        match (Policy.ranked (d.ledger.query slot))[n]? with
        | some c => ∃ r, res = .ok r ∧ r.candidate = c.id
        | none => res = .error .noCandidates := by
  intro h
  have hn : (grantees (Sample.rush Sample.impatient 120).log)[0]? = some 0 := by decide +kernel
  have hout : (Sample.rush Sample.impatient 120).threads[0]?.bind Thread.outcome? =
      some (.error (.invalid .waitTooLong)) := by
    decide +kernel
  have hfree : (Policy.ranked (Sample.desk.ledger.query Sample.request.slot))[0]?.isSome := by
    decide +kernel
  obtain ⟨th, hth, hres⟩ := Option.bind_eq_some_iff.1 hout
  have := h _ _ _ _ Sample.desk_fresh (Sample.reach_rush Sample.impatient 120) 0 0 th _ hn hth hres
  split at this
  · obtain ⟨r, hr, -⟩ := this
    cases hr
  · rename_i hnone
    rw [hnone] at hfree
    cases hfree

end Turnstile.Admission
