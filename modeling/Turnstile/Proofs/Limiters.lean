import Turnstile.Proofs.Local.Vigils
import Turnstile.Proofs.Remote.Vigils

/-!
# Both limiters wait alike

A token is taken from a bucket of the process or from one of the server. However the looks at the
bucket are answered, both callers look at the same instants, sleep for the same times and come to
the same end (`limiters_alike`): each keeps the vigil of the stream and no other. The answers are
milliseconds of 64 bits, as many as a reply of the server can hold.
-/

namespace Turnstile

open Strand (answered_append)

section

variable {answers : Nat → UInt64} {alarm : Nat → Nat} {F : Behaviour Remote.client}
  {time : List (Asked Remote.client) → Nat} {h : List (Asked Remote.client)} {who : Ulid}
  {key : String} {wait : Duration} {plan : RatePlan}

/-- Both callers keep the vigil `v` when they begin after the history `h` of the server. -/
structure BothKeep (answers : Nat → UInt64) (alarm : Nat → Nat) (F : Behaviour Remote.client)
    (time : List (Asked Remote.client) → Nat) (h : List (Asked Remote.client)) (who : Ulid)
    (key : String) (wait : Duration) (plan : RatePlan) (v : Vigil) : Prop where
  /-- An attempt whose looks are answered by the stream. -/
  told (t : Ticket) (bucket : String) (v' : Vigil) :
    Local.Course alarm (.told t bucket plan (time h + wait.nanos) answers) 0 (time h) none v' ↔
      v' = v
  /-- An attempt at stores where each look is answered so. -/
  onStores (t : Ticket) (stores : Nat → Local.Store) :
    (∀ n x, v.looks[n]? = some x →
      ((stores n).takeToken ((stores 0).bucketName key plan.scope) plan x).2 =
        .ofMillis (answers n)) →
    ∀ v', Local.Course alarm (.onStores t (.token key wait plan) stores) 0 (time h) none v' ↔ v' = v
  /-- The routine that asks the server. -/
  remote (v' : Vigil) : Remote.Rate.Keeps F time h who key wait plan v' ↔ v' = v
  /-- The bucket is looked at before each sleep and once more. The last look tells that a token was
  taken, or of a sleep that would not be over in time. -/
  last : ∃ x, v.looks = v.naps.map Nap.start ++ [x] ∧
    (v.taken = true ↔ answers v.naps.length = 0) ∧
    (v.taken = false →
      time h + wait.nanos < (Nap.of x (.ofMillis (answers v.naps.length))).finish)
  /-- Each sleep is as long as the look before it told. -/
  lengths : v.naps.map Nap.length =
    (List.range v.naps.length).map fun n => (Duration.ofMillis (answers n)).nanos
  /-- No sleep begins that is to end after the deadline. -/
  inTime : ∀ x ∈ v.naps, x.finish ≤ time h + wait.nanos
  few : v.naps.length ≤ wait.nanos / 1_000_000
  /-- A sleep ends when it is to end, if timers fire in time and know the instant of the start. -/
  prompt : alarm = Clock.tick → Clock.tick (time h) = time h →
    ∀ x ∈ v.naps, alarm x.finish = x.finish

/-- However the looks are answered, both callers come to their end, with the same looks, the same
sleeps and the same result. -/
theorem limiters_alike (hkey : Limits.checkKey key = .ok ())
    (hwait : Limits.checkWait wait = .ok ()) (hplan : Limits.checkRate plan = .ok ())
    (halarm : ∀ t, Clock.tick t ≤ alarm t) (hF : Remote.Timed alarm F time)
    (hT : Remote.Rate.Tells answers F h who key wait plan) :
    ∃ v, BothKeep answers alarm F time h who key wait plan v := by
  have hexists : ∃ v, Vigil.Kept answers alarm (time h + wait.nanos) 0 (time h) v :=
    Vigil.Kept.exists_kept halarm 0 (time h)
  obtain ⟨v, hv⟩ := hexists
  have hfew := hv.length_naps_le halarm
  have hlengths := hv.lengths_eq
  have hlast := hv.last_look
  rw [Nat.add_sub_cancel_left] at hfew
  rw [← List.range_eq_range'] at hlengths
  simp only [Nat.zero_add] at hlast
  refine ⟨v, ?_⟩
  exact {
    told := fun t bucket v' =>
      have hc := hv.told halarm t bucket plan
      ⟨fun hc' => hc'.unique hc, fun he => he ▸ hc⟩
    onStores := fun t stores hanswers v' =>
      have hc := hv.onStores hkey hwait hplan halarm hanswers
      ⟨fun hc' => hc'.unique hc, fun he => he ▸ hc⟩
    remote := fun v' =>
      have hk := Remote.Rate.keeps hkey hwait hplan halarm hF hT hv
      ⟨fun hk' => hk'.unique hk, fun he => he ▸ hk⟩
    last := hlast
    lengths := hlengths
    inTime := hv.finish_le
    few := hfew
    prompt := fun hprompt hstart => by
      subst hprompt
      exact hv.tick_finish hstart }

end

/-! ### An example -/

/-- A server where each look is answered by the stream. -/
def metered (answers : Nat → UInt64) : Behaviour Remote.client
  | h, .clock => Remote.Lock.elapsed h
  | h, .send (.run .takeToken _ _) => Remote.Reply.int (answers (h.countP Remote.Rate.isLook)).toNat
  | _, .send _ => Remote.Reply.nil
  | _, .takeLatest _ => none
  | _, .pause _ | _, .watch _ _ _ | _, .unwatch _ _ | _, .remember _ _ _ => ()

theorem metered_tells (answers : Nat → UInt64) (who : Ulid) (key : String) (wait : Duration)
    (plan : RatePlan) : Remote.Rate.Tells answers (metered answers) [] who key wait plan := by
  rintro t r he before calls after names arguments a rfl hr
  have hcalls := (answered_append.1 (answered_append.1 he.answered).2).1
  obtain ⟨reply, rest, ht⟩ := hr.head
  rw [ht, List.nil_append] at hcalls
  rw [Nat.zero_add]
  obtain rfl : reply = .int (answers (before.countP Remote.Rate.isLook)).toNat := hcalls.1
  cases hr with
  | known =>
    cases ht
    exact Remote.Reply.nat64_int _
  | sent hunknown =>
    cases ht
    cases hunknown
  | unsent hunknown =>
    cases ht
    cases hunknown

/-- Twenty milliseconds are asked for at first, then thirty, and then there is a token. -/
def earned : Nat → UInt64
  | 0 => 20
  | 1 => 30
  | _ => 0

/-- A wait of 50 ms: the second sleep ends at the deadline, where the token is there. -/
theorem sample_alike : Limits.checkKey "table" = .ok () ∧ Limits.checkWait (.ofMillis 50) = .ok () ∧
    Limits.checkRate .default = .ok () ∧ (∀ t, Clock.tick t ≤ Clock.tick t) ∧
    Remote.Timed Clock.tick (metered earned) Remote.Lock.elapsed ∧
    Remote.Rate.Tells earned (metered earned) [] (.ofNat 0) "table" (.ofMillis 50) .default ∧
    ∃ v, BothKeep earned Clock.tick (metered earned) Remote.Lock.elapsed [] (.ofNat 0) "table"
      (.ofMillis 50) .default v ∧
      v = ⟨[0, 20_000_000, 50_000_000], [⟨0, 20_000_000⟩, ⟨20_000_000, 30_000_000⟩], true⟩ := by
  have hkey : Limits.checkKey "table" = .ok () := by decide
  have hwait : Limits.checkWait (.ofMillis 50) = .ok () := by decide
  have hplan : Limits.checkRate .default = .ok () := by decide
  have halarm (t : Nat) : Clock.tick t ≤ Clock.tick t := Nat.le_refl _
  have hF : Remote.Timed Clock.tick (metered earned) Remote.Lock.elapsed :=
    Remote.Lock.elapsed_prompt fun _ => rfl
  have hT := metered_tells earned (.ofNat 0) "table" (.ofMillis 50) .default
  obtain ⟨v, h⟩ := limiters_alike hkey hwait hplan halarm hF hT
  have hkept : Vigil.Kept earned Clock.tick 50_000_000 0 0
      ⟨[0, 20_000_000, 50_000_000], [⟨0, 20_000_000⟩, ⟨20_000_000, 30_000_000⟩], true⟩ :=
    .slept (by decide) (by decide) (.slept (by decide) (by decide) (.taken rfl))
  have hsame := (h.told 0 "table" _).1 (hkept.told halarm 0 "table" .default)
  exact ⟨hkey, hwait, hplan, halarm, hF, hT, v, h, hsame.symm⟩

end Turnstile
