import Turnstile.Proofs.Remote.Polling
import Turnstile.Proofs.Vigils

/-!
# The vigil of a routine

A routine that takes a token (`Remote.Rate.take`) looks at the bucket each time it runs the script.
`Remote.Rate.Told` says of its trace that the looks are answered by a stream. If only the sleeps
take time, it keeps the vigil of the stream (`Remote.Rate.vigil_of_ends`, `Remote.Rate.keeps`).
-/

namespace Turnstile

open Strand (Ends Yields)

namespace Remote

theorem Reply.nat64_of_isUnknownScript {r : Reply} (h : r.isUnknownScript = true) :
    ∃ e, r.nat64 = .error e := by
  cases r with
  | error s => exact ⟨_, rfl⟩
  | _ => cases h

theorem Reply.nat64_int (n : UInt64) : (int n.toNat).nat64 = .ok n.toNat := by
  have hfits : n.toNat < 18_446_744_073_709_551_616 := n.toNat_lt
  refine congrArg Except.ok ?_
  omega

namespace Rate

/-- A reply to the script that takes a token, from a server that knows the script. -/
def isLook : Asked client → Bool
  | ⟨.send (.run .takeToken _ _), (reply : Reply)⟩ => !reply.isUnknownScript
  | _ => false

/-- The bucket is looked at when the script is run. -/
def look? (now : Nat) (e : Asked client) : Option Nat := if isLook e then some now else none

def nap? (now : Nat) (e : Asked client) : Option Nap :=
  match e.call with
  | .pause d => some (.of now d)
  | _ => none

section

variable {β : Type} {show? : Nat → Asked client → Option β} {F : Behaviour client}
  {time : List (Asked client) → Nat} {alarm : Nat → Nat} {h t u : List (Asked client)}

/-- What the calls of a trace show at the times at which they are made. -/
def shown (time : List (Asked client) → Nat) (show? : Nat → Asked client → Option β) :
    List (Asked client) → List (Asked client) → List β
  | _, [] => []
  | h, e :: t => (show? (time h) e).toList ++ shown time show? (h ++ [e]) t

theorem shown_append : shown time show? h (t ++ u) =
    shown time show? h t ++ shown time show? (h ++ t) u := by
  induction t generalizing h with
  | nil => rw [List.append_nil, List.nil_append, shown, List.nil_append]
  | cons e t ih =>
    rw [List.cons_append, shown, shown, ih, ← List.append_cons, List.append_assoc]

/-- What is seen of a call by its trace and by whether it got a token. -/
def vigil (time : List (Asked client) → Nat) (h t : List (Asked client)) (taken : Bool) : Vigil :=
  ⟨shown time look? h t, shown time nap? h t, taken⟩

/-- Each time the script is run, the answer of the stream is read that is next. -/
def Told (answers : Nat → UInt64) (n : Nat) (t : List (Asked client)) : Prop :=
  ∀ before calls after names arguments a, t = before ++ (calls ++ after) →
    Ran .takeToken names arguments Reply.nat64 calls a →
      a = .ok (answers (n + before.countP isLook)).toNat

theorem Told.of_append {answers : Nat → UInt64} {n : Nat} (hT : Told answers n (t ++ u)) :
    Told answers (n + t.countP isLook) u := by
  intro before calls after names arguments a hu hr
  rw [hT (t ++ before) calls after names arguments a (by rw [hu, List.append_assoc]) hr,
    List.countP_append, Nat.add_assoc]

/-! ### One look -/

/-- The calls of one look with a reply that can be read: the bucket is looked at once, and no time
passes. -/
structure Looked (time : List (Asked client) → Nat) (h calls : List (Asked client)) : Prop where
  once : calls.countP isLook = 1
  looks : shown time look? h calls = [time h]
  naps : shown time nap? h calls = []
  instant : time (h ++ calls) = time h

theorem time_send (hF : Timed alarm F time) {c : Command} {r : Reply} :
    time (h ++ [⟨.send c, r⟩]) = time h :=
  hF.stays h _ fun _ hd => by cases hd

theorem looked_of_ran {names : List Name} {arguments : List Argument} {calls : List (Asked client)}
    {ms : Nat} (hF : Timed alarm F time)
    (hr : Ran .takeToken names arguments Reply.nat64 calls (.ok ms)) : Looked time h calls := by
  have hinstant : time (h ++ calls) = time h := hF.stays_append hr.not_pause
  generalize hread : Except.ok (ε := GuardError) ms = a at hr
  cases hr with
  | @known reply hknown =>
    have hlook : isLook ⟨.send (.run .takeToken names arguments), reply⟩ = true := by
      simp only [isLook, hknown, Bool.not_false]
    refine ⟨?_, ?_, rfl, hinstant⟩
    · simp [hlook]
    · simp [shown, look?, hlook]
  | @sent reply loaded reply' hunknown =>
    have hunseen : isLook ⟨.send (.run .takeToken names arguments), reply⟩ = false := by
      simp only [isLook, hunknown, Bool.not_true]
    have hload : isLook ⟨.send (.load .takeToken), loaded⟩ = false := rfl
    have hknown : reply'.isUnknownScript = false := by
      rw [Bool.eq_false_iff]
      intro hu
      obtain ⟨e, he⟩ := Reply.nat64_of_isUnknownScript hu
      cases hread.trans he
    have hlook : isLook ⟨.send (.run .takeToken names arguments), reply'⟩ = true := by
      simp only [isLook, hknown, Bool.not_false]
    have hsent : time (h ++ [⟨.send (.run .takeToken names arguments), reply⟩] ++
        [⟨.send (.load .takeToken), loaded⟩]) = time h := by
      rw [time_send hF, time_send hF]
    refine ⟨?_, ?_, rfl, hinstant⟩
    · simp [hunseen, hload, hlook]
    · simp only [shown, look?, hunseen, hload, hlook, hsent, if_true]
      rfl
  | unsent => cases hread

/-! ### Every look -/

theorem ofNanos_ofMillis (ms : UInt64) :
    Duration.ofNanos (Clock.ofMillis ms.toNat) = .ofMillis ms := by
  have hfits : (Duration.ofMillis ms).nanos ≤ Duration.longest.nanos :=
    Nat.le_sub_one_of_lt (Duration.ofMillis ms).bounded
  exact Duration.ext (Nat.min_eq_left hfits)

theorem isNone_wakeFor? {now deadline : Nat} {d : Duration} :
    (wakeFor? now deadline d).isNone = true ↔ deadline < (Nap.of now d).finish := by
  unfold wakeFor?
  rw [Nap.finish_of]
  split
  · rename_i h
    exact iff_of_true rfl h
  · rename_i h
    exact iff_of_false nofun h

/-- A look that found no token, and the sleep after it. -/
def turn (calls : List (Asked client)) (now : Nat) (d : Duration) : List (Asked client) :=
  calls ++ [⟨.clock, now⟩, ⟨.pause d, ()⟩]

namespace Looked

variable {calls : List (Asked client)} {d : Duration} {taken : Bool}

theorem vigil_taken (hl : Looked time h calls) :
    vigil time h calls taken = .last (time h) taken := by
  unfold vigil Vigil.last
  rw [hl.looks, hl.naps]

theorem vigil_late (hl : Looked time h calls) {now : Nat} :
    vigil time h (calls ++ [⟨.clock, now⟩]) taken = .last (time h) taken := by
  unfold vigil Vigil.last
  rw [shown_append, shown_append, hl.looks, hl.naps]
  rfl

theorem vigil_turn (hl : Looked time h calls) (hF : Timed alarm F time) {now : Nat} :
    vigil time h (turn calls now d ++ u) taken =
      (vigil time (h ++ turn calls now d) u taken).cons (.of (time h) d) := by
  have hclock : time (h ++ calls ++ [⟨.clock, now⟩]) = time h := hF.time_clock.trans hl.instant
  have hnaps : shown time nap? (h ++ calls) [⟨.clock, now⟩, ⟨.pause d, ()⟩] = [.of (time h) d] := by
    rw [← hclock]
    rfl
  unfold vigil Vigil.cons turn
  rw [shown_append, shown_append, shown_append, shown_append, hl.looks, hl.naps, hnaps]
  rfl

theorem time_turn (hl : Looked time h calls) (hF : Timed alarm F time) {now : Nat} :
    time (h ++ turn calls now d) = alarm (Nap.of (time h) d).finish := by
  have hclock : time (h ++ calls ++ [⟨.clock, now⟩]) = time h := hF.time_clock.trans hl.instant
  rw [turn, ← List.append_assoc, List.append_cons, hF.pause, hclock, Nap.finish_of]

theorem countP_turn (hl : Looked time h calls) {now : Nat} :
    (turn calls now d).countP isLook = 1 := by
  rw [turn, List.countP_append, hl.once]
  rfl

end Looked

section

variable {answers : Nat → UInt64} {deadline n now fuel : Nat} {ms : UInt64} {bucket : Name}
  {plan : RatePlan} {r : Except GuardError Bool}

/-- A look ends the call, or it goes on after the sleep. -/
theorem look_cases (hF : Timed alarm F time) (hnow : time h = now) (hT : Told answers n t)
    (hms : answers n = ms)
    (he : Ends Empty.elim F h ⟨look bucket plan deadline (fuel + 1), []⟩ t r []) :
    ∃ calls u, t = calls ++ u ∧ Looked time h calls ∧
      (ms = 0 → u = [] ∧ r = .ok true) ∧
      (ms ≠ 0 → deadline < (Nap.of now (.ofMillis ms)).finish →
        u = [⟨.clock, now⟩] ∧ r = .ok false) ∧
      (ms ≠ 0 → (Nap.of now (.ofMillis ms)).finish ≤ deadline →
        ∃ v, t = turn calls now (.ofMillis ms) ++ v ∧
          Ends Empty.elim F (h ++ turn calls now (.ofMillis ms))
            ⟨look bucket plan deadline fuel, []⟩ v r []) := by
  have hrun : Yields Empty.elim (Ran .takeToken [bucket]
    [.number plan.permits.toNat, .number (atLeastOneMilli plan.interval),
      .number (atLeastOneMilli plan.lifetime)] Reply.nat64) _ := run_yields
  obtain ⟨calls, a, hcalls, ha⟩ := hrun.ends F h
  obtain ⟨u, rfl, hu⟩ := hcalls.of_bind he
  obtain rfl : a = .ok ms.toNat := hms ▸ hT [] calls u _ _ a rfl ha
  have hl : Looked time h calls := looked_of_ran hF ha
  have hclock : F (h ++ calls) Call.clock = now := (hF.clock _).trans (hl.instant.trans hnow)
  have hdenied (hne : ms ≠ 0) : ∃ v, u = ⟨.clock, now⟩ :: v ∧
      Ends Empty.elim F (h ++ calls ++ [⟨.clock, now⟩])
        ⟨if (wakeFor? now deadline (.ofMillis ms)).isNone then .done (.ok false)
          else .call (.pause (.ofMillis ms)) fun _ => look bucket plan deadline fuel, []⟩
        v r [] := by
    change Ends _ _ _ ⟨if ms.toNat = 0 then _ else _, []⟩ _ _ _ at hu
    rw [if_neg (toNat_ne_zero_of_ne hne)] at hu
    obtain ⟨v, hv, hrest⟩ := hu.of_ask hclock
    rw [← ofNanos_ofMillis]
    exact ⟨v, hv, hrest⟩
  refine ⟨calls, u, rfl, hl, fun hzero => ?_, fun hne hlate => ?_, fun hne hle => ?_⟩
  · subst hzero
    cases hu
    exact ⟨rfl, rfl⟩
  · obtain ⟨v, rfl, hv⟩ := hdenied hne
    rw [if_pos (isNone_wakeFor?.2 hlate)] at hv
    cases hv
    exact ⟨rfl, rfl⟩
  · obtain ⟨v, rfl, hv⟩ := hdenied hne
    rw [if_neg (mt isNone_wakeFor?.1 (Nat.not_lt.2 hle))] at hv
    obtain ⟨w, rfl, hw⟩ := hv.of_ask (x := ()) rfl
    rw [← List.append_cons, List.append_assoc] at hw
    refine ⟨w, ?_, hw⟩
    rw [turn, List.append_assoc]
    rfl

/-- The routine keeps the vigil. The looks for which there is fuel do not run out, since there are
not more sleeps than milliseconds. -/
theorem vigil_of_ends {v : Vigil} (halarm : ∀ t, Clock.tick t ≤ alarm t) (hF : Timed alarm F time)
    (hv : Vigil.Kept answers alarm deadline n now v) (hnow : time h = now) (hT : Told answers n t)
    (hfuel : (deadline - now) / 1_000_000 < fuel)
    (he : Ends Empty.elim F h ⟨look bucket plan deadline fuel, []⟩ t r []) :
    r = .ok v.taken ∧ vigil time h t v.taken = v := by
  obtain ⟨fuel, rfl⟩ : ∃ m, fuel = m + 1 := ⟨fuel - 1, by omega⟩
  induction hv generalizing h t fuel with
  | taken hms =>
    obtain ⟨calls, u, rfl, hl, htaken, -, -⟩ := look_cases hF hnow hT rfl he
    obtain ⟨rfl, rfl⟩ := htaken hms
    rw [List.append_nil]
    exact ⟨rfl, hnow ▸ hl.vigil_taken⟩
  | late hms hlate =>
    obtain ⟨calls, u, rfl, hl, -, hended, -⟩ := look_cases hF hnow hT rfl he
    obtain ⟨rfl, rfl⟩ := hended hms hlate
    exact ⟨rfl, hnow ▸ hl.vigil_late⟩
  | @slept n now v hms hle _ ih =>
    obtain ⟨calls, u, -, hl, -, -, hnext⟩ := look_cases hF hnow hT rfl he
    obtain ⟨u, rfl, hu⟩ := hnext hms hle
    -- The sleep took a millisecond at least, so there is fuel for one more look.
    have hless := Vigil.Kept.left_lt halarm hms hle
    obtain ⟨fuel, rfl⟩ : ∃ m, fuel = m + 1 := ⟨fuel - 1, by omega⟩
    have htime : time (h ++ turn calls now (.ofMillis (answers n))) =
        alarm (Nap.of now (.ofMillis (answers n))).finish := by
      rw [hl.time_turn hF, hnow]
    have hrest := hT.of_append
    rw [hl.countP_turn] at hrest
    obtain ⟨hr, hvigil⟩ := ih htime hrest fuel (by omega) hu
    refine ⟨hr, ?_⟩
    rw [Vigil.taken_cons, hl.vigil_turn hF, hvigil, hnow]

end

/-- What is seen of the routine that takes a token. -/
def Keeps (F : Behaviour client) (time : List (Asked client) → Nat) (h : List (Asked client))
    (who : Ulid) (key : String) (wait : Duration) (plan : RatePlan) (v : Vigil) : Prop :=
  ∃ t taken, Ends Empty.elim F h ⟨take who key wait plan, []⟩ t (.ok taken) [] ∧
    vigil time h t taken = v

theorem Keeps.unique {who : Ulid} {key : String} {wait : Duration} {plan : RatePlan} {v v' : Vigil}
    (hk : Keeps F time h who key wait plan v) (hk' : Keeps F time h who key wait plan v') :
    v = v' := by
  obtain ⟨t, taken, he, rfl⟩ := hk
  obtain ⟨t', taken', he', rfl⟩ := hk'
  obtain ⟨rfl, hresult, -⟩ := he.unique he'
  cases hresult
  rfl

/-- The routine is told the stream. -/
def Tells (answers : Nat → UInt64) (F : Behaviour client) (h : List (Asked client)) (who : Ulid)
    (key : String) (wait : Duration) (plan : RatePlan) : Prop :=
  ∀ t r, Ends Empty.elim F h ⟨take who key wait plan, []⟩ t r [] → Told answers 0 t

theorem keeps {answers : Nat → UInt64} {who : Ulid} {key : String} {wait : Duration}
    {plan : RatePlan} {v : Vigil} (hkey : Limits.checkKey key = .ok ())
    (hwait : Limits.checkWait wait = .ok ()) (hplan : Limits.checkRate plan = .ok ())
    (halarm : ∀ t, Clock.tick t ≤ alarm t) (hF : Timed alarm F time)
    (hT : Tells answers F h who key wait plan)
    (hv : Vigil.Kept answers alarm (time h + wait.nanos) 0 (time h) v) :
    Keeps F time h who key wait plan v := by
  have hfuel : (time h + wait.nanos - time h) / 1_000_000 < polls wait := by
    unfold polls Clock.millis Clock.tick
    omega
  have htake : take who key wait plan = .call .clock fun (now : Nat) =>
      look (bucket key who plan.scope) plan (now + wait.nanos) (polls wait) := by
    unfold take
    rw [hkey, hwait, hplan]
  obtain ⟨t, r, he⟩ := exists_ends (take who key wait plan) F h
  have htold := hT t r he
  rw [htake] at he
  obtain ⟨u, rfl, hu⟩ := he.of_ask (hF.clock h)
  have hrest : Told answers 0 u := htold.of_append (t := [⟨.clock, time h⟩])
  obtain ⟨rfl, hvigil⟩ := vigil_of_ends halarm hF hv hF.time_clock hrest hfuel hu
  rw [← htake] at he
  exact ⟨_, v.taken, he, hvigil⟩

end

end Rate

end Remote

end Turnstile
