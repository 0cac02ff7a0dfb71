import Turnstile.Proofs.Admission.Custody
import Turnstile.Proofs.Admission.Hall
import Turnstile.Proofs.Slot

/-!
# What callers have in their hands

A reservation without substitutes has the fair lock of its key in its hands from when it is granted
until it is unlocked, and permits in between. When it is dropped, tasks of their own have these in
their hands. `Careful` says of a program that it makes its calls accordingly: it asks for permits
only under the lock and for all of a pool, it gives back what it has, permits before the lock, and
where it may be kept waiting it owes just what it has.
-/

namespace Turnstile.Admission

/-- The fair lock of a key in the name of an owner, and permits of a key. That permits were refused
is remembered. -/
structure Hands where
  lock? : Option (SlotKey × Ulid)
  permits? : Option SlotKey
  refused : Bool

/-- A task that makes this call may be kept waiting. Permits are among the calls that are answered
at the first look, which is to be shown. -/
def Call.mayWait : Call → Bool
  | isHeldBy _ _ => false
  | unlock _ _ => false
  | permits false _ _ _ => false
  | giveBack false _ => false
  | c => c.isAwaited

theorem Call.isAwaited_of_mayWait {c : Call} (h : c.mayWait = true) : c.isAwaited = true := by
  unfold mayWait at h
  split at h
  · cases h
  · cases h
  · cases h
  · cases h
  · exact h

namespace Hands

def empty : Hands := ⟨none, none, false⟩

def next (x : Hands) : (c : Call) → c.Answer → Hands
  | .lock key owner _, .ok true => { x with lock? := some (key, owner) }
  | .isHeldBy _ _, .ok true => x
  | .isHeldBy _ _, _ => { x with lock? := none }
  | .unlock _ _, _ => { x with lock? := none }
  | .permits _ key _ _, .ok true => { x with permits? := some key }
  | .permits _ _ _ _, .ok false => { x with refused := true }
  | .giveBack _ _, _ => { x with permits? := none }
  | _, _ => x

/-- What a caller must have in its hands to make a call. -/
def Allows (x : Hands) : Call → Prop
  | .lock _ _ _ => x.lock? = none ∧ x.permits? = none
  | .isHeldBy key owner => x.lock? = some (key, owner) ∧ x.permits? = none
  | .unlock key owner => x.lock? = some (key, owner) ∧ x.permits? = none
  | .permits spare key plan demand => spare = false ∧ demand.permits = plan.capacity ∧
    Limits.checkKey key.text = .ok () ∧ Limits.checkPermits demand.permits plan.capacity = .ok () ∧
    (∃ owner, x.lock? = some (key, owner)) ∧ x.permits? = none
  | .giveBack spare key => spare = false ∧ x.permits? = some key
  | _ => True

/-- What is owed for what is in the hands, latest first. -/
def owed (x : Hands) : List Release :=
  (x.permits?.map (Release.permits false)).toList ++
    (x.lock?.map fun l => Release.lock l.1 l.2).toList

/-- Permits are there only under the lock of their key. -/
def Whole (x : Hands) : Prop :=
  ∀ key, x.permits? = some key → ∃ owner, x.lock? = some (key, owner)

theorem Whole.of_none {x : Hands} (h : x.permits? = none) : x.Whole := by
  intro key hkey
  rw [h] at hkey
  cases hkey

def Ok (x : Hands) (owed : List Release) (c : Call) : Prop :=
  x.Allows c ∧ (c.mayWait = true → owed = x.owed ∧ x.Whole)

/-- Nothing is left at the end, and too little capacity is reported only if permits were refused. -/
structure Ends (r : Option (Except AdmissionError Reservation)) (x : Hands) (owed : List Release) :
    Prop where
  lock : x.lock? = none
  permits : x.permits? = none
  owed : owed = []
  refused : r = some (.error .capacityExhausted) → x.refused = true

end Hands

/-- What a reservation or a release is on the machine: it returns a reservation or nothing. -/
abbrev Turn := Strand collaborators Release (Option (Except AdmissionError Reservation))

abbrev Careful (x : Hands) (s : Turn) : Prop :=
  Strand.Always Release.program (fun x e => x.next e.call e.answer) Hands.Ok Hands.Ends x s

/-! ## Reservations -/

def Hold.owner? : Hold → Option Ulid
  | fair owner => some owner
  | spare _ => none

namespace Phase

/-- What a reservation for `q` has in its hands in a phase. -/
def hands (q : Request) (refused : Bool) (φ : Phase) : Hands where
  lock? := φ.hold?.bind fun l => l.owner?.map (q.slot.key, ·)
  permits? := if φ.hasPermits then some q.slot.key else none
  refused := refused

/-- No substitute was asked, and too little capacity was found only if permits were refused. -/
def Plain (refused : Bool) : Phase → Prop
  | started => True
  | rating spare => spare = false
  | admitted => True
  | lockLost => False
  | locked l => l.isSpare = false
  | pooling l cs spare => l.isSpare = false ∧ spare = false ∧ cs ≠ []
  | walking l spare _ => l.isSpare = false ∧ spare = false
  | walked l spare found => l.isSpare = false ∧ spare = false ∧
    (found = .error .capacityExhausted → refused = true)
  | leaving l found => l.isSpare = false ∧ (found = .error .capacityExhausted → refused = true)
  | unlocking _ found => found = .error .capacityExhausted → refused = true
  | ended r => r = .error .capacityExhausted → refused = true

variable {settings : Settings} {hasFlags hasPublisher refused : Bool} {q : Request} {φ : Phase}
  {c : Call}

theorem checkPermits_permitCount {cs : List Candidate} (h : cs ≠ []) :
    Limits.checkPermits (Policy.permitCount cs) (Policy.permitCount cs) = .ok () := by
  have hlen : 0 < cs.length := List.length_pos_iff.2 h
  have hnat : (Policy.permitCount cs).toNat = min cs.length 10000 := by
    refine UInt32.toNat_ofNat_of_lt' (Nat.lt_of_le_of_lt (Nat.min_le_right _ _) ?_)
    decide
  have hmax : Limits.maxPermits.toNat = 10000 := rfl
  unfold Limits.checkPermits
  rw [if_neg, if_neg]
  · rw [or_self, gt_iff_lt, UInt32.lt_iff_toNat_lt]
    omega
  · intro hzero
    have hz : (Policy.permitCount cs).toNat = 0 := congrArg UInt32.toNat hzero
    omega

theorem toAdmission_ne {e : GuardError} : e.toAdmission ≠ .capacityExhausted := by
  cases e <;> exact nofun

theorem exists_fair {l : Hold} (hl : l.isSpare = false) : ∃ owner, l = .fair owner := by
  cases l with
  | fair owner => exact ⟨owner, rfl⟩
  | spare held => cases hl

theorem verdict_plain {owner : Ulid} {found : Found}
    (hf : found = .error .capacityExhausted → refused = true) :
    (ended (verdict q found (.fair owner))).Plain refused := by
  intro h
  cases found with
  | ok f => cases h
  | error e =>
    exact hf (congrArg Except.error (Except.error.inj h))

theorem hands_offer {l : Hold} {rest : List Candidate} (hl : l.isSpare = false) :
    (offer l false rest).hands q refused =
      ⟨l.owner?.map (q.slot.key, ·), some q.slot.key, refused⟩ ∧
      (offer l false rest).Plain refused := by
  cases rest with
  | nil => exact ⟨rfl, hl, rfl, nofun⟩
  | cons c rest => exact ⟨rfl, hl, rfl⟩

theorem Asks.careful (ha : φ.Asks (.plain settings hasFlags hasPublisher) q c)
    (hφ : φ.Plain refused) :
    (φ.hands q refused).Ok (φ.owes q) c ∧ ∀ a, ∃ b,
      (φ.hands q refused).next c a =
        (φ.next (.plain settings hasFlags hasPublisher) q c a).hands q b ∧
      (φ.next (.plain settings hasFlags hasPublisher) q c a).Plain b := by
  cases ha with
  | flag =>
    refine ⟨⟨trivial, fun _ => ⟨rfl, .of_none rfl⟩⟩, fun a => ⟨refused, ?_⟩⟩
    rcases a with e | _ | _
    · exact ⟨rfl, rfl⟩
    · exact ⟨rfl, fun h => by cases h⟩
    · exact ⟨rfl, rfl⟩
  | rate spare =>
    obtain rfl : spare = false := hφ
    refine ⟨⟨trivial, fun _ => ⟨rfl, .of_none rfl⟩⟩, fun a => ⟨refused, ?_⟩⟩
    rcases a with e | _ | _
    · have hno : (e.isUnavailable && !false && false) = false := Bool.and_false _
      simp only [Phase.next, ofRate, Policy.plain, hno]
      exact ⟨rfl, fun h => absurd (Except.error.inj h) toAdmission_ne⟩
    · exact ⟨rfl, fun h => by cases h⟩
    · exact ⟨rfl, trivial⟩
  | lock owner =>
    refine ⟨⟨⟨rfl, rfl⟩, fun _ => ⟨rfl, .of_none rfl⟩⟩, fun a => ⟨refused, ?_⟩⟩
    rcases a with e | _ | _
    · have hno : (e.isUnavailable && false) = false := Bool.and_false _
      simp only [Phase.next, ofLock, Policy.plain, hno]
      exact ⟨rfl, fun h => absurd (Except.error.inj h) toAdmission_ne⟩
    · exact ⟨rfl, fun h => by cases h⟩
    · exact ⟨rfl, rfl⟩
  | spareLock => exact absurd hφ id
  | query l =>
    obtain ⟨owner, rfl⟩ := exists_fair hφ
    refine ⟨⟨trivial, fun _ => ⟨rfl, .of_none rfl⟩⟩, fun a => ⟨refused, ?_⟩⟩
    rcases a with e | _ | ⟨c, cs⟩
    · exact ⟨rfl, rfl, fun h => by cases h⟩
    · exact ⟨rfl, rfl, fun h => by cases h⟩
    · exact ⟨rfl, rfl, rfl, List.cons_ne_nil _ _⟩
  | permits l cs spare =>
    obtain ⟨hl, rfl, hcs⟩ := hφ
    obtain ⟨owner, rfl⟩ := exists_fair hl
    refine ⟨⟨⟨rfl, rfl, Slot.checkKey_key _, checkPermits_permitCount hcs, ⟨owner, rfl⟩, rfl⟩,
      fun h => by cases h⟩, fun a => ?_⟩
    rcases a with e | _ | _
    · have hno : (e.isUnavailable && !false && false) = false := Bool.and_false _
      refine ⟨refused, ?_⟩
      simp only [Phase.next, ofPermits, Policy.plain, hno]
      exact ⟨rfl, rfl, fun h => absurd (Except.error.inj h) toAdmission_ne⟩
    · exact ⟨true, rfl, rfl, fun _ => rfl⟩
    · obtain ⟨hh, hp⟩ := @hands_offer refused q (.fair owner) (Policy.ranked cs) rfl
      exact ⟨refused, hh.symm, hp⟩
  | create l spare c rest now =>
    obtain ⟨hl, rfl⟩ := hφ
    obtain ⟨owner, rfl⟩ := exists_fair hl
    refine ⟨⟨trivial, fun _ => ⟨rfl, fun key hkey => ?_⟩⟩, fun a => ⟨refused, ?_⟩⟩
    · obtain rfl := Option.some.inj hkey
      exact ⟨owner, rfl⟩
    · rcases a with e | _ | id
      · exact ⟨rfl, rfl, rfl, fun h => by cases h⟩
      · obtain ⟨hh, hp⟩ := @hands_offer refused q (.fair owner) rest rfl
        exact ⟨hh.symm, hp⟩
      · exact ⟨rfl, rfl, rfl, fun h => by cases h⟩
  | giveBack l spare found =>
    obtain ⟨hl, rfl, hfound⟩ := hφ
    obtain ⟨owner, rfl⟩ := exists_fair hl
    exact ⟨⟨⟨rfl, rfl⟩, fun h => by cases h⟩, fun a => ⟨refused, rfl, rfl, hfound⟩⟩
  | isHeldBy owner found =>
    obtain ⟨-, hfound⟩ := hφ
    refine ⟨⟨⟨rfl, rfl⟩, fun h => by cases h⟩, fun a => ⟨refused, ?_⟩⟩
    rcases a with e | _ | _
    · exact ⟨rfl, verdict_plain hfound⟩
    · exact ⟨rfl, verdict_plain hfound⟩
    · exact ⟨rfl, hfound⟩
  | spareUnlock held found => cases hφ.1
  | unlock owner found =>
    exact ⟨⟨⟨rfl, rfl⟩, fun h => by cases h⟩, fun a => ⟨refused, rfl, verdict_plain hφ⟩⟩

end Phase

/-! ## Tasks -/

section

variable {settings : Settings} {hasFlags hasPublisher : Bool} {q : Request} {x : Hands} {r : Release}

theorem Hands.ok_of_not_isAwaited {c : Call} {owed : List Release} (hc : c.isAwaited = false) :
    x.Ok owed c ∧ ∀ a, x.next c a = x := by
  have hw : c.mayWait = true → owed = x.owed ∧ x.Whole := by
    intro hm
    rw [Call.isAwaited_of_mayWait hm] at hc
    cases hc
  cases c with
  | wallClock => exact ⟨⟨trivial, hw⟩, fun _ => rfl⟩
  | newOwner => exact ⟨⟨trivial, hw⟩, fun _ => rfl⟩
  | publish event => exact ⟨⟨trivial, hw⟩, fun _ => rfl⟩
  | note n => exact ⟨⟨trivial, hw⟩, fun _ => rfl⟩
  | _ => cases hc

/-- A reservation without substitutes is careful. -/
theorem reserve_careful : Careful .empty
    ⟨((Policy.plain settings hasFlags hasPublisher).reserve q).bind fun r => .done (some r), []⟩ := by
  have hfollows : Follows (.plain settings hasFlags hasPublisher) q
      (fun (r : Option (Except AdmissionError Reservation)) φ o =>
        o = [] ∧ ∃ r', r = some r' ∧ φ = .ended r')
      (.start (.plain settings hasFlags hasPublisher))
      ⟨((Policy.plain settings hasFlags hasPublisher).reserve q).bind fun r => .done (some r), []⟩ :=
    reserve_follows.bind fun r φ o ⟨ho, hφ⟩ => .done ⟨ho, r, rfl, hφ⟩
  refine hfollows.simulate (R := fun φ x => ∃ b, x = φ.hands q b ∧ φ.Plain b) ?_ ?_ ?_
  · refine ⟨false, ?_⟩
    cases hasFlags with
    | false => exact ⟨rfl, rfl⟩
    | true => exact ⟨rfl, trivial⟩
  · rintro φ x owed c ⟨b, rfl, hφ⟩ hdue
    cases hc : c.isAwaited with
    | false =>
      obtain ⟨hok, hnext⟩ := @Hands.ok_of_not_isAwaited (φ.hands q b) c owed hc
      refine ⟨hok, fun a => ⟨b, (hnext a).trans ?_, ?_⟩⟩ <;> simp [Phase.advance, hc, hφ]
    | true =>
      obtain ⟨hasks, rfl⟩ := hdue hc
      obtain ⟨hok, hnext⟩ := hasks.careful hφ
      refine ⟨hok, fun a => ?_⟩
      simpa only [Phase.advance, hc, if_true] using hnext a
  · rintro a φ x owed ⟨b, rfl, hφ⟩ ⟨ho, r, rfl, rfl⟩
    exact ⟨rfl, rfl, ho, fun h => hφ (Option.some.inj h)⟩

/-- What the task of a release has in its hands. -/
def Release.hands : Release → Hands
  | lock key owner => ⟨some (key, owner), none, false⟩
  | spareLock _ => .empty
  | permits _ key => ⟨none, some key, false⟩

theorem noteFailure_careful {guard : GuardName} {ε : Type} (answer : Except ε Bool) :
    Careful .empty ⟨(Release.noteFailure guard answer).bind fun _ => .done none, []⟩ := by
  have hend : Careful .empty ⟨.done none, []⟩ := .done ⟨rfl, rfl, rfl, nofun⟩
  cases answer with
  | ok b => exact hend
  | error e => exact .call ⟨trivial, nofun⟩ fun _ => hend

/-- The task of what is owed is careful. -/
theorem release_careful (hr : r ∈ x.owed) :
    Careful r.hands ⟨r.program.bind fun _ => .done none, []⟩ := by
  cases r with
  | lock key owner =>
    refine .call ⟨⟨rfl, rfl⟩, nofun⟩ fun a => ?_
    rcases a with e | _ | _
    · exact noteFailure_careful _
    · exact .done ⟨rfl, rfl, rfl, nofun⟩
    · exact .call ⟨⟨rfl, rfl⟩, nofun⟩ fun a => noteFailure_careful _
  | spareLock held => simp [Hands.owed] at hr
  | permits spare key =>
    obtain rfl : spare = false := by simp_all [Hands.owed]
    exact .call ⟨⟨rfl, rfl⟩, nofun⟩ fun a => noteFailure_careful _

end

end Turnstile.Admission
