import Turnstile.Settings

/-!
# Settings within the limits

The bounds of the guards are written down twice: a value that is read is dropped if it is out of
bounds, and a guard turns away what is out of bounds. `Settings.ofLookup_withinLimits` says that
the two agree, whatever the variables hold: what was read has passed the test of its field, and
what was not read is the default, which passes the same test.
-/

namespace Turnstile

namespace Limits

theorem checkWait_eq_ok {wait : Duration} (h : wait ≤ maxWait) : checkWait wait = .ok () :=
  if_neg (Nat.not_lt.2 h)

theorem checkRate_eq_ok {plan : RatePlan} (hpos : 0 < plan.permits) (hmax : plan.permits ≤ maxRate)
    (hzero : plan.interval.isZero = false) (hlong : plan.interval ≤ maxInterval)
    (hlife : minLifetime ≤ plan.lifetime) : checkRate plan = .ok () := by
  have hne : plan.permits ≠ 0 := fun he => by simp [he] at hpos
  have hinterval : ¬ plan.interval > maxInterval := Nat.not_lt.2 hlong
  have hlifetime : ¬ plan.lifetime < minLifetime := Nat.not_lt.2 hlife
  unfold checkRate
  rw [if_neg hne, if_neg (UInt32.not_lt.2 hmax), hzero, if_neg Bool.false_ne_true,
    if_neg hinterval, if_neg hlifetime]

end Limits

namespace Settings

/-- The settings pass each check that a guard makes of them. -/
structure WithinLimits (s : Settings) : Prop where
  rate : Limits.checkRate s.rate = .ok ()
  rateWait : Limits.checkWait s.rateWait = .ok ()
  lockWait : Limits.checkWait s.lockWait = .ok ()
  lockLease : Limits.minLifetime ≤ s.lockLease
  permitWait : Limits.checkWait s.permitWait = .ok ()
  poolLifetime : Limits.minLifetime ≤ s.poolLifetime
  spareLockWait : Limits.checkWait s.spareLockWait = .ok ()

variable {lookup : String → Option String} {name text : String} {d default : Duration}

/-- A value that was read has passed the test, and else the default has. -/
theorem accept_getD {β : Type} (accept : β → Bool) {read : String → Option β} {b : β}
    (hread : ∀ text b, read text = some b → accept b = true) (hb : accept b = true) :
    accept (((lookup name).bind read).getD b) = true := by
  cases h : (lookup name).bind read with
  | none => exact hb
  | some b' =>
    obtain ⟨text, -, htext⟩ := Option.bind_eq_some_iff.1 h
    exact hread text b' htext

theorem accept_of_millis? {accept : Duration → Bool} (h : millis? accept text = some d) :
    accept d = true :=
  (Option.filter_eq_some_iff.1 h).2

/-- The wait of a field whose default is short enough. -/
theorem checkWait_getD (h : isWait default = true) :
    Limits.checkWait (((lookup name).bind (millis? isWait)).getD default) = .ok () :=
  Limits.checkWait_eq_ok <| of_decide_eq_true <|
    accept_getD isWait (fun _ _ => accept_of_millis?) h

/-- The lifetime of a field whose default is long enough. -/
theorem minLifetime_le_getD (h : isLifetime default = true) :
    Limits.minLifetime ≤ ((lookup name).bind (millis? isLifetime)).getD default :=
  of_decide_eq_true <| accept_getD isLifetime (fun _ _ => accept_of_millis?) h

/-- All settings that can be read are within the limits, malformed values or not. -/
theorem ofLookup_withinLimits (lookup : String → Option String) :
    (ofLookup lookup).WithinLimits := by
  refine ⟨?_, checkWait_getD (by decide), checkWait_getD (by decide),
    minLifetime_le_getD (by decide), checkWait_getD (by decide), minLifetime_le_getD (by decide),
    checkWait_getD (by decide)⟩
  have hpermits : (0 < (ofLookup lookup).rate.permits &&
      (ofLookup lookup).rate.permits ≤ Limits.maxRate) = true :=
    accept_getD (fun n : UInt32 => 0 < n && n ≤ Limits.maxRate) (b := Settings.default.rate.permits)
      (fun _ _ h => (Option.filter_eq_some_iff.1 h).2) (by decide)
  have hinterval : isInterval (ofLookup lookup).rate.interval = true :=
    accept_getD isInterval (b := Settings.default.rate.interval)
      (fun _ _ => accept_of_millis?) (by decide)
  rw [Bool.and_eq_true, decide_eq_true_iff, decide_eq_true_iff] at hpermits
  rw [isInterval, Bool.and_eq_true, Bool.not_eq_true', decide_eq_true_iff] at hinterval
  exact Limits.checkRate_eq_ok hpermits.1 hpermits.2 hinterval.1 hinterval.2
    (minLifetime_le_getD (by decide))

/-- Bounds are inclusive: the longest wait is kept, and a wait beyond it is not. -/
example :
    ((ofLookup fun _ => some "30000").lockWait, (ofLookup fun _ => some "30001").lockWait) =
      (Limits.maxWait, .ofSecs 3) := by
  decide

end Settings

end Turnstile
