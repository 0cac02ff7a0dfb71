import Turnstile.Admission.Reserve
import Turnstile.Proofs.Strand

/-!
# The course of a reservation

What a reservation does next depends on the answers that it has got so far, and on little of them.
A `Phase` is that little. `Phase.next` moves it along with every answer, `Phase.Asks` says which call
comes next and `Phase.owes` what is owed while that call waits.

`reserve_along` ties the phases to the program: at every call that a reservation waits for, and
when it ends, whatever was answered before, the program is where its phase says. Every statement
about the calls of a reservation is derived from it and from `Course`, the histories that follow
the phases, so that only this module unfolds the program.
-/

namespace Turnstile.Admission

instance : DecidableEq collaborators.Call := inferInstanceAs (DecidableEq Call)

/-- The caller waits for the answer; all other calls are answered at once. -/
def Call.isAwaited : Call → Bool
  | wallClock => false
  | newOwner => false
  | publish _ => false
  | note _ => false
  | _ => true

/-- Calls that were awaited and their answers, oldest first. -/
abbrev History := List (Asked collaborators)

/-- The part of a trace that was awaited. -/
def awaited (t : History) : History := t.filter fun e => e.call.isAwaited

/-- What the work under a lock comes to. -/
abbrev Found := Except AdmissionError (UInt64 × Candidate)

/-- A lock that was granted. -/
inductive Hold
  | fair (owner : Ulid)
  | spare (held : Held)
deriving DecidableEq

/-- What is owed for a lock. -/
def Hold.release (q : Request) : Hold → Release
  | fair owner => .lock q.slot.key owner
  | spare held => .spareLock held

/-- The lock is the substitute's. -/
def Hold.isSpare : Hold → Bool
  | fair _ => false
  | spare _ => true

/-- The reservation of a candidate that was taken. -/
def reservation (q : Request) (degraded : Bool) : UInt64 × Candidate → Reservation
  | (id, c) => ⟨id, c.id, c.table, q.slot.key, degraded⟩

/-- What a reservation returns, given what it found under its lock. -/
def verdict (q : Request) (found : Found) : Hold → Except AdmissionError Reservation
  | .fair _ => found.map (reservation q false)
  | .spare _ => (found.mapError unprocessable).map (reservation q true)

/-- The error with which an answer ends a reservation before it offers anything: the reservations are
switched off, a guard refuses, or it fails and no substitute is left to be asked, or the loader has
nothing. -/
def Policy.stop? (p : Policy) : (c : Call) → c.Answer → Option AdmissionError
  | .flag _, .ok false => some .featureDisabled
  | .rate _ _ _ _, .ok false => some .rateLimited
  | .rate spare _ _ _, .error e =>
    if e.isUnavailable && !spare && p.spareRate then none else some e.toAdmission
  | .lock _ _ _, .ok false => some .lockContention
  | .lock _ _ _, .error e => if e.isUnavailable && p.spareLock then none else some e.toAdmission
  | .spareLock _ _, .ok none => some .lockContention
  | .spareLock _ _, .error e => some e.toAdmission
  | .query _, .ok [] => some .noCandidates
  | .query _, .error e => some (.store e)
  | .permits _ _ _ _, .ok false => some .capacityExhausted
  | .permits spare _ _ _, .error e =>
    if e.isUnavailable && !spare && p.sparePermits then none else some e.toAdmission
  | _, _ => none

theorem Policy.ne_of_stop? {p : Policy} {c : Call} {a b : c.Answer} {e : AdmissionError}
    (h : p.stop? c a = some e) (hb : p.stop? c b = none) : a ≠ b := by
  rintro rfl
  cases h.symm.trans hb

/-- Where a reservation stands. A phase is named for what has happened or for what comes next;
`spare` says that the guard could not be reached and that its substitute is asked. -/
inductive Phase
  | started
  | rating (spare : Bool)
  | admitted
  /-- The fair lock could not be reached. -/
  | lockLost
  | locked (l : Hold)
  | pooling (l : Hold) (cs : List Candidate) (spare : Bool)
  /-- Permits were granted, by the substitute or not; `rest` has not been offered yet. -/
  | walking (l : Hold) (spare : Bool) (rest : List Candidate)
  /-- The walk is over and the permits are to be given back. -/
  | walked (l : Hold) (spare : Bool) (found : Found)
  /-- The lock is to be released. -/
  | leaving (l : Hold) (found : Found)
  | unlocking (owner : Ulid) (found : Found)
  | ended (r : Except AdmissionError Reservation)

namespace Phase

def start (p : Policy) : Phase := if p.hasFlags then started else rating false

def ofFlag : Except GuardError Bool → Phase
  | .ok false => ended (.error .featureDisabled)
  | _ => rating false

def ofRate (p : Policy) (spare : Bool) : Except GuardError Bool → Phase
  | .ok true => admitted
  | .ok false => ended (.error .rateLimited)
  | .error e =>
    if e.isUnavailable && !spare && p.spareRate then rating true else ended (.error e.toAdmission)

def ofLock (p : Policy) (owner : Ulid) : Except GuardError Bool → Phase
  | .ok true => locked (.fair owner)
  | .ok false => ended (.error .lockContention)
  | .error e => if e.isUnavailable && p.spareLock then lockLost else ended (.error e.toAdmission)

def ofSpareLock : Except GuardError (Option Held) → Phase
  | .ok (some held) => locked (.spare held)
  | .ok none => ended (.error .lockContention)
  | .error e => ended (.error e.toAdmission)

def ofQuery (l : Hold) : Except StoreError (List Candidate) → Phase
  | .ok [] => leaving l (.error .noCandidates)
  | .ok cs => pooling l cs false
  | .error e => leaving l (.error (.store e))

/-- The next candidate is offered, if there is one. -/
def offer (l : Hold) (spare : Bool) : List Candidate → Phase
  | [] => walked l spare (.error .noCandidates)
  | rest => walking l spare rest

def ofPermits (p : Policy) (l : Hold) (cs : List Candidate) (spare : Bool) :
    Except GuardError Bool → Phase
  | .ok true => offer l spare (Policy.ranked cs)
  | .ok false => leaving l (.error .capacityExhausted)
  | .error e =>
    if e.isUnavailable && !spare && p.sparePermits then pooling l cs true
    else leaving l (.error e.toAdmission)

def ofCreate (l : Hold) (spare : Bool) (c : Candidate) (rest : List Candidate) :
    Except StoreError (Option UInt64) → Phase
  | .ok (some id) => walked l spare (.ok (id, c))
  | .ok none => offer l spare rest
  | .error e => walked l spare (.error (.store e))

def ofIsHeldBy (q : Request) (owner : Ulid) (found : Found) : Except GuardError Bool → Phase
  | .ok true => unlocking owner found
  | _ => ended (verdict q found (.fair owner))

/-- The phase after the call `c` was answered; a call that is not due leaves it as it is. -/
def next (p : Policy) (q : Request) : Phase → (c : Call) → c.Answer → Phase
  | started, .flag _, a => ofFlag a
  | rating spare, .rate _ _ _ _, a => ofRate p spare a
  | admitted, .lock _ owner _, a => ofLock p owner a
  | lockLost, .spareLock _ _, a => ofSpareLock a
  | locked l, .query _, a => ofQuery l a
  | pooling l cs spare, .permits _ _ _ _, a => ofPermits p l cs spare a
  | walking l spare (c :: rest), .create _, a => ofCreate l spare c rest a
  | walked l _ found, .giveBack _ _, _ => leaving l found
  | leaving (.fair owner) found, .isHeldBy _ _, a => ofIsHeldBy q owner found a
  | leaving (.spare held) found, .spareUnlock _, _ => ended (verdict q found (.spare held))
  | unlocking owner found, .unlock _ _, _ => ended (verdict q found (.fair owner))
  | φ, _, _ => φ

/-- The plan of the pool and what is wanted of it, for a list of candidates. -/
def poolPlan (p : Policy) (cs : List Candidate) : PoolPlan :=
  ⟨Policy.permitCount cs, p.settings.poolLifetime⟩

def poolDemand (p : Policy) (cs : List Candidate) : PoolDemand :=
  ⟨Policy.permitCount cs, p.settings.permitWait⟩

/-- The call that comes next. The owner of a lock and the time of a walk are up to others. -/
inductive Asks (p : Policy) (q : Request) : Phase → Call → Prop
  | flag : Asks p q started (.flag reservationFlag)
  | rate (spare : Bool) :
    Asks p q (rating spare) (.rate spare q.slot.key p.settings.rateWait p.settings.rate)
  | lock (owner : Ulid) : Asks p q admitted (.lock q.slot.key owner p.settings.lockWait)
  | spareLock : Asks p q lockLost (.spareLock q.slot.key p.settings.spareLockWait)
  | query (l : Hold) : Asks p q (locked l) (.query q.slot)
  | permits (l : Hold) (cs : List Candidate) (spare : Bool) :
    Asks p q (pooling l cs spare) (.permits spare q.slot.key (poolPlan p cs) (poolDemand p cs))
  | create (l : Hold) (spare : Bool) (c : Candidate) (rest : List Candidate) (now : DateTime) :
    Asks p q (walking l spare (c :: rest)) (.create (.take c q.user now))
  | giveBack (l : Hold) (spare : Bool) (found : Found) :
    Asks p q (walked l spare found) (.giveBack spare q.slot.key)
  | isHeldBy (owner : Ulid) (found : Found) :
    Asks p q (leaving (.fair owner) found) (.isHeldBy q.slot.key owner)
  | spareUnlock (held : Held) (found : Found) :
    Asks p q (leaving (.spare held) found) (.spareUnlock held)
  | unlock (owner : Ulid) (found : Found) :
    Asks p q (unlocking owner found) (.unlock q.slot.key owner)

/-- What is owed while the next call waits, latest first. -/
def owes (q : Request) : Phase → List Release
  | locked l => [l.release q]
  | pooling l _ _ => [l.release q]
  | walking l spare _ => [.permits spare q.slot.key, l.release q]
  | walked l _ _ => [l.release q]
  | _ => []

/-- The phase after a call of a trace. -/
def advance (p : Policy) (q : Request) (φ : Phase) (e : Asked collaborators) : Phase :=
  if e.call.isAwaited then φ.next p q e.call e.answer else φ

/-- A call that is awaited is the next one of its phase. -/
def Due (p : Policy) (q : Request) (φ : Phase) (owed : List Release) (c : Call) : Prop :=
  c.isAwaited → φ.Asks p q c ∧ owed = φ.owes q

/-- All that one call can do, which is what the case analyses of later proofs go by. -/
inductive Moves (p : Policy) (q : Request) : Phase → (c : Call) → c.Answer → Phase → Prop
  | enabled {a : Except GuardError Bool} :
    a ≠ .ok false → Moves p q started (.flag reservationFlag) a (rating false)
  | disabled :
    Moves p q started (.flag reservationFlag) (.ok false) (ended (.error .featureDisabled))
  | rated (spare : Bool) :
    Moves p q (rating spare) (.rate spare q.slot.key p.settings.rateWait p.settings.rate)
      (.ok true) admitted
  | rateFallsBack {e : GuardError} : e.isUnavailable = true →
    Moves p q (rating false) (.rate false q.slot.key p.settings.rateWait p.settings.rate)
      (.error e) (rating true)
  | rateFails (spare : Bool) {a : Except GuardError Bool} (e : AdmissionError) :
    p.stop? (.rate spare q.slot.key p.settings.rateWait p.settings.rate) a = some e →
    Moves p q (rating spare) (.rate spare q.slot.key p.settings.rateWait p.settings.rate)
      a (ended (.error e))
  | locks (owner : Ulid) :
    Moves p q admitted (.lock q.slot.key owner p.settings.lockWait) (.ok true)
      (locked (.fair owner))
  | lockFallsBack (owner : Ulid) {e : GuardError} : e.isUnavailable = true →
    Moves p q admitted (.lock q.slot.key owner p.settings.lockWait) (.error e) lockLost
  | lockFails (owner : Ulid) {a : Except GuardError Bool} (e : AdmissionError) :
    p.stop? (.lock q.slot.key owner p.settings.lockWait) a = some e →
    Moves p q admitted (.lock q.slot.key owner p.settings.lockWait) a (ended (.error e))
  | spareLocks (held : Held) :
    Moves p q lockLost (.spareLock q.slot.key p.settings.spareLockWait) (.ok (some held))
      (locked (.spare held))
  | spareLockFails {a : Except GuardError (Option Held)} (e : AdmissionError) :
    p.stop? (.spareLock q.slot.key p.settings.spareLockWait) a = some e →
    Moves p q lockLost (.spareLock q.slot.key p.settings.spareLockWait) a (ended (.error e))
  | finds (l : Hold) (c : Candidate) (cs : List Candidate) :
    Moves p q (locked l) (.query q.slot) (.ok (c :: cs)) (pooling l (c :: cs) false)
  | findsNone (l : Hold) {a : Except StoreError (List Candidate)} (e : AdmissionError) :
    p.stop? (.query q.slot) a = some e →
    Moves p q (locked l) (.query q.slot) a (leaving l (.error e))
  | admits (l : Hold) (cs : List Candidate) (spare : Bool) :
    Moves p q (pooling l cs spare)
      (.permits spare q.slot.key (poolPlan p cs) (poolDemand p cs)) (.ok true)
      (offer l spare (Policy.ranked cs))
  | permitsFallBack (l : Hold) (cs : List Candidate) {e : GuardError} : e.isUnavailable = true →
    Moves p q (pooling l cs false)
      (.permits false q.slot.key (poolPlan p cs) (poolDemand p cs)) (.error e)
      (pooling l cs true)
  | permitsFail (l : Hold) (cs : List Candidate) (spare : Bool) {a : Except GuardError Bool}
    (e : AdmissionError) :
    p.stop? (.permits spare q.slot.key (poolPlan p cs) (poolDemand p cs)) a = some e →
    Moves p q (pooling l cs spare)
      (.permits spare q.slot.key (poolPlan p cs) (poolDemand p cs)) a (leaving l (.error e))
  | takes (l : Hold) (spare : Bool) (c : Candidate) (rest : List Candidate) (now : DateTime)
    (id : UInt64) :
    Moves p q (walking l spare (c :: rest)) (.create (.take c q.user now)) (.ok (some id))
      (walked l spare (.ok (id, c)))
  | passes (l : Hold) (spare : Bool) (c : Candidate) (rest : List Candidate) (now : DateTime) :
    Moves p q (walking l spare (c :: rest)) (.create (.take c q.user now)) (.ok none)
      (offer l spare rest)
  | breaks (l : Hold) (spare : Bool) (c : Candidate) (rest : List Candidate) (now : DateTime)
    (e : StoreError) :
    Moves p q (walking l spare (c :: rest)) (.create (.take c q.user now)) (.error e)
      (walked l spare (.error (.store e)))
  | givesBack (l : Hold) (spare : Bool) (found : Found) (a : Except GuardError Unit) :
    Moves p q (walked l spare found) (.giveBack spare q.slot.key) a (leaving l found)
  | holds (owner : Ulid) (found : Found) :
    Moves p q (leaving (.fair owner) found) (.isHeldBy q.slot.key owner) (.ok true)
      (unlocking owner found)
  | holdsNot (owner : Ulid) (found : Found) {a : Except GuardError Bool} : a ≠ .ok true →
    Moves p q (leaving (.fair owner) found) (.isHeldBy q.slot.key owner) a
      (ended (verdict q found (.fair owner)))
  | spareUnlocks (held : Held) (found : Found) (a : Except GuardError Unit) :
    Moves p q (leaving (.spare held) found) (.spareUnlock held) a
      (ended (verdict q found (.spare held)))
  | unlocks (owner : Ulid) (found : Found) (a : Except GuardError Bool) :
    Moves p q (unlocking owner found) (.unlock q.slot.key owner) a
      (ended (verdict q found (.fair owner)))

theorem Asks.moves {p : Policy} {q : Request} {φ : Phase} {c : Call} (ha : φ.Asks p q c)
    (a : c.Answer) : φ.Moves p q c a (φ.next p q c a) := by
  cases ha with
  | flag =>
    rcases a with e | _ | _
    · exact .enabled nofun
    · exact .disabled
    · exact .enabled nofun
  | rate spare =>
    rcases a with e | _ | _
    · simp only [next, ofRate]
      split
      · rename_i h
        simp only [Bool.and_eq_true, Bool.not_eq_true'] at h
        obtain ⟨⟨he, rfl⟩, -⟩ := h
        exact .rateFallsBack he
      · exact .rateFails spare _ (if_neg ‹_›)
    · exact .rateFails spare _ rfl
    · exact .rated spare
  | lock owner =>
    rcases a with e | _ | _
    · simp only [next, ofLock]
      split
      · rename_i h
        rw [Bool.and_eq_true] at h
        exact .lockFallsBack owner h.1
      · exact .lockFails owner _ (if_neg ‹_›)
    · exact .lockFails owner _ rfl
    · exact .locks owner
  | spareLock =>
    rcases a with e | _ | held
    · exact .spareLockFails _ rfl
    · exact .spareLockFails _ rfl
    · exact .spareLocks held
  | query l =>
    rcases a with e | _ | ⟨c, cs⟩
    · exact .findsNone l _ rfl
    · exact .findsNone l _ rfl
    · exact .finds l c cs
  | permits l cs spare =>
    rcases a with e | _ | _
    · simp only [next, ofPermits]
      split
      · rename_i h
        simp only [Bool.and_eq_true, Bool.not_eq_true'] at h
        obtain ⟨⟨he, rfl⟩, -⟩ := h
        exact .permitsFallBack l cs he
      · exact .permitsFail l cs spare _ (if_neg ‹_›)
    · exact .permitsFail l cs spare _ rfl
    · exact .admits l cs spare
  | create l spare c rest now =>
    rcases a with e | _ | id
    · exact .breaks l spare c rest now e
    · exact .passes l spare c rest now
    · exact .takes l spare c rest now id
  | giveBack l spare found => exact .givesBack l spare found a
  | isHeldBy owner found =>
    rcases a with e | _ | _
    · exact .holdsNot owner found nofun
    · exact .holdsNot owner found nofun
    · exact .holds owner found
  | spareUnlock held found => exact .spareUnlocks held found a
  | unlock owner found => exact .unlocks owner found a

end Phase

/-- However its calls are answered, the routine follows the phases from `φ` on and ends under `Q`. -/
abbrev Follows {α : Type} (p : Policy) (q : Request) (Q : α → Phase → List Release → Prop)
    (φ : Phase) (s : Strand collaborators Release α) : Prop :=
  Strand.Always Release.program (Phase.advance p q) (Phase.Due p q) Q φ s

/-- What a part of a reservation leaves behind: it is over if the part failed. -/
def Leaves {α : Type} (good : α → Phase) (r : Except AdmissionError α) (φ : Phase)
    (owed : List Release) : Prop :=
  owed = [] ∧ φ = match r with
    | .ok a => good a
    | .error e => .ended (.error e)

section Parts

variable {α : Type} {p : Policy} {q : Request} {φ : Phase} {owed : List Release}
  {Q : α → Phase → List Release → Prop}

namespace Follows

theorem ask {c : Call} {k : c.Answer → Routine α} (hc : c.isAwaited = true) (ha : φ.Asks p q c)
    (ho : owed = φ.owes q) (hk : ∀ a, Follows p q Q (φ.next p q c a) ⟨k a, owed⟩) :
    Follows p q Q φ ⟨.call c k, owed⟩ := by
  refine .call (fun _ => ⟨ha, ho⟩) fun a => ?_
  have : φ.advance p q ⟨c, a⟩ = φ.next p q c a := if_pos hc
  rw [this]
  exact hk a

theorem tell {c : Call} {k : c.Answer → Routine α} (hc : c.isAwaited = false)
    (hk : ∀ a, Follows p q Q φ ⟨k a, owed⟩) : Follows p q Q φ ⟨.call c k, owed⟩ := by
  refine .call (fun h => absurd h (by simp [hc])) fun a => ?_
  have : φ.advance p q ⟨c, a⟩ = φ := if_neg (by simp [hc])
  rw [this]
  exact hk a

end Follows

theorem checkEnabled_follows :
    Follows p q (Leaves fun _ => .rating false) (.start p) ⟨p.checkEnabled, []⟩ := by
  unfold Policy.checkEnabled Phase.start
  split
  · refine Follows.ask rfl .flag rfl fun a => ?_
    rcases a with e | _ | _ <;> exact .done ⟨rfl, rfl⟩
  · exact .done ⟨rfl, rfl⟩

theorem takeToken_follows :
    Follows p q (Leaves fun _ => .admitted) (.rating false) ⟨p.takeToken q.slot.key, []⟩ := by
  unfold Policy.takeToken
  refine Follows.ask rfl (.rate false) rfl fun a => ?_
  rcases a with e | _ | _
  · by_cases h : (e.isUnavailable && p.spareRate) = true
    · have hφ : Phase.next p q (.rating false)
          (.rate false q.slot.key p.settings.rateWait p.settings.rate) (.error e) =
          .rating true := by
        simp only [Bool.and_eq_true] at h
        simp [Phase.next, Phase.ofRate, h]
      rw [hφ]
      simp only [h, if_true]
      refine Follows.tell rfl fun _ => Follows.ask rfl (.rate true) rfl fun a => ?_
      rcases a with e | _ | _
      · exact .done ⟨rfl, by simp [Phase.next, Phase.ofRate, Policy.rateVerdict]⟩
      · exact .done ⟨rfl, rfl⟩
      · exact .done ⟨rfl, rfl⟩
    · simp only [h]
      refine .done ⟨rfl, ?_⟩
      simp only [Bool.and_eq_true] at h
      simp [Phase.next, Phase.ofRate, Policy.rateVerdict, h]
  · exact .done ⟨rfl, rfl⟩
  · exact .done ⟨rfl, rfl⟩

theorem takePermits_follows {h : Hold} (cs : List Candidate) (ho : owed = [h.release q]) :
    Follows p q (fun r φ o => o = owed ∧ φ = match r with
      | .ok spare => .offer h spare (Policy.ranked cs)
      | .error e => .leaving h (.error e))
      (.pooling h cs false) ⟨p.takePermits q.slot.key (Policy.permitCount cs), owed⟩ := by
  unfold Policy.takePermits
  refine Follows.ask rfl (.permits h cs false) ho fun a => ?_
  rcases a with e | _ | _
  · by_cases he : (e.isUnavailable && p.sparePermits) = true
    · have hφ : Phase.next p q (.pooling h cs false)
          (.permits false q.slot.key (Phase.poolPlan p cs) (Phase.poolDemand p cs)) (.error e) =
          .pooling h cs true := by
        simp only [Bool.and_eq_true] at he
        simp [Phase.next, Phase.ofPermits, he]
      change Follows p q _ (Phase.next p q (.pooling h cs false)
          (.permits false q.slot.key (Phase.poolPlan p cs) (Phase.poolDemand p cs)) (.error e)) _
      rw [hφ]
      simp only [he, if_true]
      refine Follows.tell rfl fun _ => Follows.ask rfl (.permits h cs true) ho fun a => ?_
      rcases a with e | _ | _
      · exact .done ⟨rfl, by simp [Phase.next, Phase.ofPermits]⟩
      · exact Follows.tell rfl fun _ => .done ⟨rfl, rfl⟩
      · exact Follows.tell rfl fun _ => .done ⟨rfl, rfl⟩
    · simp only [he]
      refine .done ⟨rfl, ?_⟩
      simp only [Bool.and_eq_true] at he
      simp [Phase.next, Phase.ofPermits, he]
  · exact Follows.tell rfl fun _ => .done ⟨rfl, rfl⟩
  · exact Follows.tell rfl fun _ => .done ⟨rfl, rfl⟩

/-- The walk asks for one candidate after the other, so the induction is on those left. -/
theorem walk_follows {h : Hold} {spare : Bool} {now : DateTime} (rest : List Candidate)
    (ho : owed = [.permits spare q.slot.key, h.release q]) :
    Follows p q (fun r φ o => φ = .walked h spare r ∧ o = owed) (.offer h spare rest)
      ⟨Policy.walk q.user now rest, owed⟩ := by
  induction rest with
  | nil => exact .done ⟨rfl, rfl⟩
  | cons c rest ih =>
    refine Follows.ask rfl (.create h spare c rest now) ho fun a => ?_
    rcases a with e | _ | id
    · exact .done ⟨rfl, rfl⟩
    · exact ih
    · exact .done ⟨rfl, rfl⟩

theorem giveBack_follows {h : Hold} {spare : Bool} {found : Found} (ho : owed = [h.release q]) :
    Follows p q (fun _ φ o => φ = .leaving h found ∧ o = owed) (.walked h spare found)
      ⟨(Release.permits spare q.slot.key).program, owed⟩ := by
  refine Follows.ask rfl (.giveBack h spare found) ho fun a => ?_
  rcases a with e | _
  · exact Follows.tell rfl fun _ => .done ⟨rfl, rfl⟩
  · exact .done ⟨rfl, rfl⟩

theorem occupy_follows {h : Hold} (ho : owed = [h.release q]) :
    Follows p q (fun found φ o => φ = .leaving h found ∧ o = owed) (.locked h)
      ⟨p.occupy q q.slot.key, owed⟩ := by
  refine Follows.ask rfl (.query h) ho fun a => ?_
  rcases a with e | _ | ⟨c, cs⟩
  · exact .done ⟨rfl, rfl⟩
  · exact .done ⟨rfl, rfl⟩
  · refine (takePermits_follows (c :: cs) ho).bind fun r φ o ⟨h₁, h₂⟩ => ?_
    subst h₁ h₂
    rcases r with e | spare
    · exact .done ⟨rfl, rfl⟩
    · refine Strand.Always.owing (R := fun found φ => φ = .walked h spare found) ?_ ?_
      · exact Follows.tell rfl fun now => walk_follows _ (by rw [ho])
      · rintro found φ rfl
        exact giveBack_follows ho

theorem release_follows (h : Hold) (found : Found) :
    Follows p q (fun _ φ o => φ = .ended (verdict q found h) ∧ o = []) (.leaving h found)
      ⟨(h.release q).program, []⟩ := by
  cases h with
  | fair owner =>
    refine Follows.ask rfl (.isHeldBy owner found) rfl fun a => ?_
    rcases a with e | _ | _
    · exact Follows.tell rfl fun _ => .done ⟨rfl, rfl⟩
    · exact .done ⟨rfl, rfl⟩
    · refine Follows.ask rfl (.unlock owner found) rfl fun a => ?_
      rcases a with e | b
      · exact Follows.tell rfl fun _ => .done ⟨rfl, rfl⟩
      · exact .done ⟨rfl, rfl⟩
  | spare held =>
    refine Follows.ask rfl (.spareUnlock held found) rfl fun a => ?_
    rcases a with e | _
    · exact Follows.tell rfl fun _ => .done ⟨rfl, rfl⟩
    · exact .done ⟨rfl, rfl⟩

theorem underLock_follows :
    Follows p q (fun r φ o => o = [] ∧ match r with
      | .completed found => φ = .ended (found.map (reservation q false))
      | .unreachable e => φ = if p.spareLock then .lockLost else .ended (.error e.toAdmission))
      .admitted ⟨underLock q.slot.key p.settings.lockWait (p.occupy q q.slot.key), []⟩ := by
  refine Follows.tell rfl fun owner => Follows.ask rfl (.lock owner) rfl fun a =>
    Follows.tell rfl fun _ => ?_
  rcases a with e | _ | _
  · by_cases he : e.isUnavailable = true
    · simp only [he, if_true]
      exact .done ⟨rfl, by simp [Phase.next, Phase.ofLock, he]⟩
    · simp only [he]
      exact .done ⟨rfl, by simp [Phase.next, Phase.ofLock, he, Except.map]⟩
  · exact .done ⟨rfl, rfl⟩
  · refine Strand.Always.bind
      (Q := fun found φ o => φ = .ended (verdict q found (.fair owner)) ∧ o = []) ?_ ?_
    · exact Strand.Always.owing (occupy_follows rfl) fun found φ hφ =>
        hφ ▸ release_follows (.fair owner) found
    · rintro found φ o ⟨rfl, rfl⟩
      exact .done ⟨rfl, rfl⟩

theorem underSpareLock_follows :
    Follows p q (fun r φ o => o = [] ∧ φ = .ended (r.map (reservation q true))) .lockLost
      ⟨underSpareLock q.slot.key p.settings.spareLockWait (p.occupy q q.slot.key), []⟩ := by
  refine Follows.ask rfl .spareLock rfl fun a => Follows.tell rfl fun _ => ?_
  rcases a with e | _ | held
  · exact .done ⟨rfl, rfl⟩
  · exact .done ⟨rfl, rfl⟩
  · refine Strand.Always.owing
      (R := fun r φ => ∃ found : Found, r = found.mapError unprocessable ∧
        φ = .leaving (.spare held) found) ?_ ?_
    · refine (occupy_follows (h := .spare held) rfl).bind ?_
      rintro found φ o ⟨rfl, rfl⟩
      exact .done ⟨⟨found, rfl, rfl⟩, rfl⟩
    · rintro r φ ⟨found, rfl, rfl⟩
      exact (release_follows (.spare held) found).mono fun _ φ o ⟨h₁, h₂⟩ => ⟨h₂, h₁⟩

theorem confirm_follows {degraded : Bool} (found : Found) :
    Follows p q (fun r φ o => o = [] ∧ φ = .ended r) (.ended (found.map (reservation q degraded)))
      ⟨p.confirm q q.slot.key degraded found, []⟩ := by
  rcases found with e | ⟨id, c⟩
  · exact .done ⟨rfl, rfl⟩
  · unfold Policy.confirm
    dsimp only
    split
    · exact Follows.tell rfl fun _ => .done ⟨rfl, rfl⟩
    · exact .done ⟨rfl, rfl⟩

theorem admitLocked_follows :
    Follows p q (fun r φ o => o = [] ∧ φ = .ended r) .admitted
      ⟨p.admitLocked q q.slot.key, []⟩ := by
  refine underLock_follows.bind ?_
  rintro (found | e) φ o ⟨rfl, rfl⟩
  · exact confirm_follows found
  · dsimp only
    split
    · refine Follows.tell rfl fun _ => underSpareLock_follows.bind ?_
      rintro found φ o ⟨rfl, rfl⟩
      exact confirm_follows found
    · exact .done ⟨rfl, rfl⟩

/-- A reservation follows its phases from the start to the end, and owes nothing then. -/
theorem reserve_follows :
    Follows p q (fun r φ o => o = [] ∧ φ = .ended r) (.start p) ⟨p.reserve q, []⟩ := by
  refine Strand.Always.bind (Q := fun r φ o => o = [] ∧ φ = .ended r) ?_ ?_
  · refine checkEnabled_follows.bind ?_
    rintro (e | _) φ o ⟨rfl, rfl⟩
    · exact .done ⟨rfl, rfl⟩
    · refine takeToken_follows.bind ?_
      rintro (e | _) φ o ⟨rfl, rfl⟩
      · exact .done ⟨rfl, rfl⟩
      · exact admitLocked_follows
  · rintro r φ o ⟨rfl, rfl⟩
    exact Follows.tell rfl fun _ => .done ⟨rfl, rfl⟩

end Parts

/-- From the phase `φ` on the calls of a history were made when they were due; now the phase is
another one. -/
inductive Course (p : Policy) (q : Request) (φ : Phase) : History → Phase → Prop
  | here : Course p q φ [] φ
  | ask {h : History} {ψ : Phase} {c : Call} (a : c.Answer) :
    Course p q φ h ψ → ψ.Asks p q c → Course p q φ (h ++ [⟨c, a⟩]) (ψ.next p q c a)

section Course

variable {p : Policy} {q : Request} {h h' t : History} {α : Type} {φ χ ψ : Phase}

@[simp] theorem awaited_nil : awaited [] = [] := rfl

@[simp] theorem awaited_append (t t' : History) : awaited (t ++ t') = awaited t ++ awaited t' :=
  List.filter_append ..

namespace Course

theorem cut {c : Call} {a : c.Answer} (hc : Course p q φ (h ++ ⟨c, a⟩ :: h') ψ) :
    ∃ χ, Course p q φ h χ ∧ χ.Asks p q c ∧ Course p q (χ.next p q c a) h' ψ := by
  generalize hw : h ++ ⟨c, a⟩ :: h' = w at hc
  induction hc generalizing h' with
  | here => simp at hw
  | @ask w χ c' a' hc ha ih =>
    rcases h'.eq_nil_or_concat with rfl | ⟨b, e, rfl⟩
    · obtain ⟨rfl, he⟩ := List.append_inj' hw rfl
      cases he
      exact ⟨χ, hc, ha, .here⟩
    · rw [List.concat_eq_append, ← List.cons_append, ← List.append_assoc] at hw
      obtain ⟨hh, he⟩ := List.append_inj' hw rfl
      cases he
      obtain ⟨χ', h₁, h₂, h₃⟩ := ih hh
      exact ⟨χ', h₁, h₂, by rw [List.concat_eq_append]; exact h₃.ask a' ha⟩

theorem start (hc : Course p q φ h ψ) :
    h = [] ∧ ψ = φ ∨
      ∃ c a h', h = ⟨c, a⟩ :: h' ∧ φ.Asks p q c ∧ Course p q (φ.next p q c a) h' ψ := by
  cases h with
  | nil =>
    generalize hw : ([] : History) = w at hc
    cases hc with
    | here => exact .inl ⟨rfl, rfl⟩
    | ask a _ _ => simp at hw
  | cons e h =>
    obtain ⟨χ, h₁, h₂, h₃⟩ := cut (h := []) hc
    generalize hw : ([] : History) = w at h₁
    cases h₁ with
    | here => exact .inr ⟨e.call, e.answer, h, rfl, h₂, h₃⟩
    | ask a _ _ => simp at hw

theorem extend {Q : α → Phase → List Release → Prop} {s s' : Strand collaborators Release α}
    (hc : Course p q φ h χ) (hf : Follows p q Q χ s) (hl : s.Leads Release.program t s') :
    Course p q φ (h ++ awaited t) (t.foldl (Phase.advance p q) χ) := by
  induction hl with
  | here => simpa using hc
  | @step t e s' s'' hl hs ih =>
    have hf' := hf.leads hl
    rw [awaited_append, ← List.append_assoc, List.foldl_append]
    cases hs with
    | call c k owed a =>
      by_cases ha : c.isAwaited = true
      · simpa [awaited, Phase.advance, ha] using ih.ask a (hf'.ok_of_call rfl ha).1
      · simpa [awaited, Phase.advance, ha] using ih
    | owe r p owed => simpa using ih
    | settle r p owed => simpa using ih
    | clear p => simpa using ih

end Course

/-- The phase of a reservation after a trace. -/
def Phase.along (p : Policy) (q : Request) (t : History) : Phase :=
  t.foldl (advance p q) (start p)

/-- At every moment of a reservation its awaited calls so far are a course to its phase, the call
that it waits for is the next one, and what it owes then is what the phase owes. -/
theorem reserve_along {s : Strand collaborators Release (Except AdmissionError Reservation)}
    (hl : Strand.Leads Release.program ⟨p.reserve q, []⟩ t s) :
    Course p q (.start p) (awaited t) (.along p q t) ∧
      (∀ c, s.call? = some c → c.isAwaited = true →
        (Phase.along p q t).Asks p q c ∧ s.owed = (Phase.along p q t).owes q) ∧
      ∀ r, s.result? = some r → s.owed = [] ∧ Phase.along p q t = .ended r := by
  have hf : Follows p q (fun r φ o => o = [] ∧ φ = .ended r) (.start p) ⟨p.reserve q, []⟩ :=
    reserve_follows
  refine ⟨by simpa [Phase.along] using Course.here.extend hf hl, fun c hc ha => ?_, fun r hr => ?_⟩
  · exact (hf.leads hl).ok_of_call hc ha
  · exact (hf.leads hl).end_of_result hr

theorem reserve_course {s : Strand collaborators Release (Except AdmissionError Reservation)}
    (hl : Strand.Leads Release.program ⟨p.reserve q, []⟩ t s) :
    ∃ φ, Course p q (.start p) (awaited t) φ ∧
      (∀ c, s.call? = some c → c.isAwaited = true → φ.Asks p q c ∧ s.owed = φ.owes q) ∧
      ∀ r, s.result? = some r → s.owed = [] ∧ φ = .ended r :=
  ⟨_, reserve_along hl⟩

end Course

/-! ## A reservation in which everybody answers well -/

namespace Sample

def policy : Policy := ⟨.default, true, false, false, false, false⟩

def request : Request := ⟨1, 5, .epoch, .midnight⟩

def candidate : Candidate := ⟨7, 1, 2, .epoch, .midnight⟩

def answer : (c : Call) → c.Answer
  | .flag _ => .ok true
  | .wallClock => ⟨.epoch, .midnight⟩
  | .newOwner => .ofNat 1
  | .rate _ _ _ _ => .ok true
  | .lock _ _ _ => .ok true
  | .isHeldBy _ _ => .ok true
  | .unlock _ _ => .ok true
  | .spareLock _ _ => .ok none
  | .spareUnlock _ => .ok ()
  | .permits _ _ _ _ => .ok true
  | .giveBack _ _ => .ok ()
  | .query _ => .ok [candidate]
  | .create _ => .ok (some 1)
  | .publish _ => ()
  | .note _ => ()
  | .pause _ => ()

/-- The first `n` nodes of the reservation, and the calls made in them. -/
def run (n : Nat) : History × Strand collaborators Release (Except AdmissionError Reservation) :=
  Strand.play Release.program answer ⟨policy.reserve request, []⟩ n

theorem run_leads (n : Nat) :
    Strand.Leads Release.program ⟨policy.reserve request, []⟩ (run n).1 (run n).2 :=
  Strand.play_leads (I := collaborators) answer _ n

end Sample

end Turnstile.Admission
