import Turnstile.Proofs.Local.Deadlines
import Turnstile.Proofs.Vigils
import Turnstile.Remote.Guards

/-!
# The vigil of an attempt

An attempt at a bucket of the process looks when it begins (`Local.Store.begin`) and after each
sleep (`Local.Store.resume`). Before a sleep it tests what is left of its time, cut off at zero, and
a routine that asks the server tests the end of the sleep. The tests agree on every sleep that takes
time (`Local.wakeFor?_eq`), and so an attempt whose looks are answered by a stream keeps the vigil
of the stream (`Vigil.Kept.course`), whatever others do to the store meanwhile
(`Vigil.Kept.onStores`).
-/

namespace Turnstile

namespace Local

/-- The two tests of the deadline agree on every sleep that takes time. -/
theorem wakeFor?_eq {now deadline : Nat} {d : Duration} (hd : 0 < d.nanos) :
    wakeFor? now deadline d = Remote.Rate.wakeFor? now deadline d := by
  have hbounded : d.nanos ≤ Duration.longest.nanos := Nat.le_sub_one_of_lt d.bounded
  have hleft : (Clock.since deadline now < d) = (deadline < now + d.nanos) := by
    show (min (deadline - now) Duration.longest.nanos < d.nanos) = _
    rw [eq_iff_iff]
    omega
  unfold wakeFor? Remote.Rate.wakeFor?
  simp only [hleft]

/-- The answer of a bucket that has a token after so many milliseconds. -/
def Take.ofMillis (ms : UInt64) : Take := if ms = 0 then .taken else .wait (.ofMillis ms)

/-- What an attempt makes of the answer to its look at `now`. -/
def Take.progress (t : Ticket) (now : Nat) (bucket : String) (plan : RatePlan) (deadline : Nat) :
    Take → Progress
  | taken => .done (.ok (some t))
  | wait d =>
    match wakeFor? now deadline d with
    | some wake => .waiting (.token bucket plan deadline wake)
    | none => .done (.ok none)

section

variable {s : Store} {t : Ticket} {now deadline wake : Nat} {bucket key : String} {wait : Duration}
  {plan : RatePlan} {d : Duration} {ms : UInt64}

theorem Take.ofMillis_of_ne (hms : ms ≠ 0) : ofMillis ms = .wait (.ofMillis ms) := if_neg hms

theorem Take.progress_late (hd : 0 < d.nanos) (hlate : deadline < (Nap.of now d).finish) :
    (Take.wait d).progress t now bucket plan deadline = .done (.ok none) := by
  have hwake : wakeFor? now deadline d = none := (wakeFor?_eq hd).trans (if_pos hlate)
  simp only [progress, hwake]

theorem Take.progress_slept (hd : 0 < d.nanos) (hle : (Nap.of now d).finish ≤ deadline) :
    (Take.wait d).progress t now bucket plan deadline =
      .waiting (.token bucket plan deadline (Nap.of now d).finish) := by
  have hwake : wakeFor? now deadline d = some (Nap.of now d).finish :=
    (wakeFor?_eq hd).trans (if_neg (Nat.not_lt.2 hle))
  simp only [progress, hwake]

namespace Store

theorem tryToken_progress : (s.tryToken t now bucket plan deadline).2 =
    (s.takeToken bucket plan now).2.progress t now bucket plan deadline := by
  unfold tryToken
  cases s.takeToken bucket plan now with
  | mk s' answer =>
    cases answer with
    | taken => rfl
    | wait d =>
      dsimp only [Take.progress]
      cases wakeFor? now deadline d <;> rfl

theorem begin_progress (hkey : Limits.checkKey key = .ok ())
    (hwait : Limits.checkWait wait = .ok ()) (hplan : Limits.checkRate plan = .ok ()) :
    (s.begin t now (.token key wait plan)).2 =
      (s.takeToken (s.bucketName key plan.scope) plan now).2.progress t now
        (s.bucketName key plan.scope) plan (now + wait.nanos) := by
  have hcheck : (Attempt.token key wait plan).check = .ok () := by
    show (do Limits.checkKey key; Limits.checkWait wait; Limits.checkRate plan) = _
    rw [hkey, hwait, hplan]
    rfl
  unfold Store.begin
  rw [hcheck]
  exact tryToken_progress

theorem resume_progress (hdue : Clock.tick wake ≤ now) :
    (s.resume t now (.token bucket plan deadline wake)).2.2 =
      (s.takeToken bucket plan now).2.progress t now bucket plan deadline := by
  have hdue : (Waiting.token bucket plan deadline wake).isDue now = true := Waiting.isDue_iff.2 hdue
  unfold resume
  simp only [hdue, if_true]
  exact tryToken_progress

end Store

end

/-- How the looks of one attempt come out: the look `n` at `now`, by what the attempt remembers. -/
abbrev Looks := Nat → Nat → Option Waiting → Progress

/-- Looks that are answered by a stream. -/
def Looks.told (t : Ticket) (bucket : String) (plan : RatePlan) (deadline : Nat)
    (answers : Nat → UInt64) : Looks :=
  fun n now _ => (Take.ofMillis (answers n)).progress t now bucket plan deadline

/-- Looks at a store. The look `n` meets it as `stores n`, whatever others did since the look
before. -/
def Looks.onStores (t : Ticket) (a : Attempt) (stores : Nat → Store) : Looks
  | n, now, none => ((stores n).begin t now a).2
  | n, now, some w => ((stores n).resume t now w).2.2

theorem Looks.onStores_none {t : Ticket} {a : Attempt} {stores : Nat → Store} {n now : Nat} :
    onStores t a stores n now none = ((stores n).begin t now a).2 := rfl

theorem Looks.onStores_some {t : Ticket} {a : Attempt} {stores : Nat → Store} {n now : Nat}
    {w : Waiting} : onStores t a stores n now (some w) = ((stores n).resume t now w).2.2 := rfl

/-- What is seen of an attempt from the look `n` at `now` on. -/
inductive Course (alarm : Nat → Nat) (look : Looks) : Nat → Nat → Option Waiting → Vigil → Prop
  | ended {n now : Nat} {w? : Option Waiting} {o : Option Ticket} : look n now w? = .done (.ok o) →
    Course alarm look n now w? (.last now o.isSome)
  | slept {n now : Nat} {w? : Option Waiting} {w : Waiting} {v : Vigil} :
    look n now w? = .waiting w → Course alarm look (n + 1) (alarm w.due) (some w) v →
    Course alarm look n now w? (v.cons ⟨now, w.due - now⟩)

section

variable {alarm : Nat → Nat} {look : Looks} {n now : Nat} {w? : Option Waiting} {v v' : Vigil}

/-- An attempt that waits for a token sleeps until it should be there. -/
theorem Course.asleep {bucket : String} {plan : RatePlan} {deadline wake : Nat}
    (h : Course alarm look (n + 1) (alarm wake) (some (.token bucket plan deadline wake)) v)
    (hlook : look n now w? = .waiting (.token bucket plan deadline wake)) :
    Course alarm look n now w? (v.cons ⟨now, wake - now⟩) :=
  .slept hlook h

theorem Course.unique (h : Course alarm look n now w? v) (h' : Course alarm look n now w? v') :
    v = v' := by
  induction h generalizing v' with
  | ended hlook =>
    cases h' with
    | ended hlook' =>
      cases hlook.symm.trans hlook'
      rfl
    | slept hlook' => cases hlook.symm.trans hlook'
  | slept hlook _ ih =>
    cases h' with
    | ended hlook' => cases hlook.symm.trans hlook'
    | slept hlook' hv =>
      cases hlook.symm.trans hlook'
      rw [ih hv]

end

end Local

/-- An attempt keeps the vigil if its looks are answered by the stream, the first one and all that
are made after a sleep. -/
theorem Vigil.Kept.course {answers : Nat → UInt64} {alarm : Nat → Nat} {deadline n now : Nat}
    {v : Vigil} {look : Local.Looks} {w? : Option Local.Waiting}
    (halarm : ∀ t, Clock.tick t ≤ alarm t) (h : Kept answers alarm deadline n now v)
    (t : Ticket) (bucket : String) (plan : RatePlan)
    (hfirst : look n now w? =
      (Local.Take.ofMillis (answers n)).progress t now bucket plan deadline)
    (hlater : ∀ i x wake, v.looks[i + 1]? = some x → Clock.tick wake ≤ x →
      look (n + (i + 1)) x (some (.token bucket plan deadline wake)) =
        (Local.Take.ofMillis (answers (n + (i + 1)))).progress t x bucket plan deadline) :
    Local.Course alarm look n now w? v := by
  induction h generalizing w? with
  | taken hms =>
    rw [hms] at hfirst
    exact .ended hfirst
  | late hms hlate =>
    rw [Local.Take.ofMillis_of_ne hms, Local.Take.progress_late (Nap.nanos_pos hms) hlate] at hfirst
    exact .ended hfirst
  | @slept n now v hms hle hv ih =>
    rw [Local.Take.ofMillis_of_ne hms, Local.Take.progress_slept (Nap.nanos_pos hms) hle] at hfirst
    -- The look after the sleep is the first one of what is left, and the attempt remembers the end.
    have hnext : v.looks[0]? = some (alarm (Nap.of now (.ofMillis (answers n))).finish) := by
      cases hv <;> rfl
    have hrest := ih (hlater 0 _ _ hnext (halarm _)) fun i x wake hx hwake => by
      have hi : n + 1 + (i + 1) = n + (i + 1 + 1) := by omega
      rw [hi]
      exact hlater (i + 1) x wake hx hwake
    have hcourse := hrest.asleep hfirst
    rw [Nap.finish_sub] at hcourse
    exact hcourse

namespace Vigil.Kept

variable {answers : Nat → UInt64} {alarm : Nat → Nat} {start deadline : Nat} {v : Vigil}
  {key : String} {wait : Duration} {plan : RatePlan}

theorem told (halarm : ∀ t, Clock.tick t ≤ alarm t) (h : Kept answers alarm deadline 0 start v)
    (t : Ticket) (bucket : String) (plan : RatePlan) :
    Local.Course alarm (.told t bucket plan deadline answers) 0 start none v :=
  h.course halarm t bucket plan rfl fun _ _ _ _ _ => rfl

theorem onStores (hkey : Limits.checkKey key = .ok ()) (hwait : Limits.checkWait wait = .ok ())
    (hplan : Limits.checkRate plan = .ok ()) (halarm : ∀ t, Clock.tick t ≤ alarm t)
    (h : Kept answers alarm (start + wait.nanos) 0 start v) {t : Ticket}
    {stores : Nat → Local.Store} (hanswers : ∀ n x, v.looks[n]? = some x →
      ((stores n).takeToken ((stores 0).bucketName key plan.scope) plan x).2 =
        .ofMillis (answers n)) :
    Local.Course alarm (.onStores t (.token key wait plan) stores) 0 start none v := by
  have hnow : v.looks[0]? = some start := by
    cases h <;> rfl
  refine h.course halarm t ((stores 0).bucketName key plan.scope) plan ?_ ?_
  · rw [Local.Looks.onStores_none, Local.Store.begin_progress hkey hwait hplan,
      hanswers 0 start hnow]
  · intro i x wake hx hwake
    rw [Nat.zero_add, Local.Looks.onStores_some, Local.Store.resume_progress hwake,
      hanswers (i + 1) x hx]

end Vigil.Kept

end Turnstile
