import Turnstile.Duration

/-!
# Calls that keep vigil for a token

A call that finds no token is told how long it takes until there is one. It sleeps so long and looks
again, unless the sleep would not be over by its deadline. A `Vigil` is what is seen of such a call,
and `Vigil.Kept` says which one is kept when the looks are answered by a given stream. There is one
for every stream (`Vigil.Kept.exists_kept`), and no sleep of it begins that is to end after the
deadline (`Vigil.Kept.finish_le`).
-/

namespace Turnstile

theorem toNat_ne_zero_of_ne {n : UInt64} (h : n ≠ 0) : n.toNat ≠ 0 :=
  fun hz => h (UInt64.toNat_inj.1 hz)

theorem Duration.nanos_ofMillis (ms : UInt64) :
    (Duration.ofMillis ms).nanos = ms.toNat * 1_000_000 := rfl

theorem Clock.tick_eq_self_iff {t : Nat} : Clock.tick t = t ↔ t % 1_000_000 = 0 := by
  unfold Clock.tick
  omega

/-! ## What is seen of a call -/

/-- A sleep of so many nanoseconds. -/
structure Nap where
  start : Nat
  length : Nat
deriving DecidableEq

namespace Nap

variable {now : Nat} {d : Duration} {ms : UInt64}

/-- A sleep of `d` that begins `now`. -/
def of (now : Nat) (d : Duration) : Nap := ⟨now, d.nanos⟩

/-- When the sleep is to end. -/
def finish (x : Nap) : Nat := x.start + x.length

theorem finish_of : (of now d).finish = now + d.nanos := rfl

theorem finish_sub : (of now d).finish - now = d.nanos := Nat.add_sub_cancel_left ..

theorem le_nanos (h : ms ≠ 0) : 1_000_000 ≤ (Duration.ofMillis ms).nanos := by
  have hpos := toNat_ne_zero_of_ne h
  rw [Duration.nanos_ofMillis]
  omega

theorem nanos_pos (h : ms ≠ 0) : 0 < (Duration.ofMillis ms).nanos :=
  Nat.lt_of_lt_of_le (by decide) (le_nanos h)

/-- A sleep of whole milliseconds that begins at one ends at one. -/
theorem tick_finish (ms : UInt64) (h : Clock.tick now = now) :
    Clock.tick (of now (.ofMillis ms)).finish = (of now (.ofMillis ms)).finish := by
  rw [Clock.tick_eq_self_iff] at h ⊢
  rw [finish_of, Duration.nanos_ofMillis, Nat.add_mul_mod_self_right]
  exact h

end Nap

/-- When a call looks at the bucket, how it sleeps in between, and whether it gets a token. -/
structure Vigil where
  looks : List Nat
  naps : List Nap
  taken : Bool
deriving DecidableEq

namespace Vigil

/-- The look at `now` is the last one. -/
def last (now : Nat) (taken : Bool) : Vigil := ⟨[now], [], taken⟩

/-- A look, the sleep that begins then, and the rest. -/
def cons (x : Nap) (v : Vigil) : Vigil := ⟨x.start :: v.looks, x :: v.naps, v.taken⟩

theorem taken_cons {x : Nap} {v : Vigil} : (v.cons x).taken = v.taken := rfl

theorem length_naps_cons {x : Nap} {v : Vigil} : (v.cons x).naps.length = v.naps.length + 1 := rfl

/-- The vigil from the look `n` on, which is made at `now`. The look is answered by the milliseconds
until there is a token, or by zero if one was taken. The call wakes up when the alarm for the end of
its sleep goes off. -/
inductive Kept (answers : Nat → UInt64) (alarm : Nat → Nat) (deadline : Nat) :
    Nat → Nat → Vigil → Prop
  | taken {n now : Nat} : answers n = 0 → Kept answers alarm deadline n now (last now true)
  | late {n now : Nat} : answers n ≠ 0 → deadline < (Nap.of now (.ofMillis (answers n))).finish →
    Kept answers alarm deadline n now (last now false)
  | slept {n now : Nat} {v : Vigil} : answers n ≠ 0 →
    (Nap.of now (.ofMillis (answers n))).finish ≤ deadline →
    Kept answers alarm deadline (n + 1) (alarm (Nap.of now (.ofMillis (answers n))).finish) v →
    Kept answers alarm deadline n now (v.cons (.of now (.ofMillis (answers n))))

/-! ## All that are kept -/

namespace Kept

variable {answers : Nat → UInt64} {alarm : Nat → Nat} {deadline n now : Nat} {v : Vigil}

/-- What is left of the time is less by a millisecond after each sleep. -/
theorem left_lt (halarm : ∀ t, Clock.tick t ≤ alarm t) (hms : answers n ≠ 0)
    (hle : (Nap.of now (.ofMillis (answers n))).finish ≤ deadline) :
    deadline - alarm (Nap.of now (.ofMillis (answers n))).finish + 1_000_000 ≤ deadline - now := by
  have hlength := Nap.le_nanos hms
  have hrings := Nat.le_trans (Clock.le_tick _) (halarm (Nap.of now (.ofMillis (answers n))).finish)
  rw [Nap.finish_of] at hle hrings ⊢
  omega

/-- Every call comes to its end. -/
theorem exists_kept (halarm : ∀ t, Clock.tick t ≤ alarm t) (n now : Nat) :
    ∃ v, Kept answers alarm deadline n now v := by
  -- What is left of the time bounds the rest of the call, however long the stream asks for sleeps.
  induction hleft : deadline - now using Nat.strongRecOn generalizing n now with
  | ind left ih =>
    subst hleft
    by_cases hms : answers n = 0
    · exact ⟨_, .taken hms⟩
    · rcases Nat.lt_or_ge deadline (Nap.of now (.ofMillis (answers n))).finish with hlate | hle
      · exact ⟨_, .late hms hlate⟩
      · have hless := left_lt halarm hms hle
        obtain ⟨v, hv⟩ := ih _ (Nat.lt_of_lt_of_le (Nat.lt_add_of_pos_right (by decide)) hless)
          (n + 1) _ rfl
        exact ⟨_, .slept hms hle hv⟩

/-- The call looks before each sleep and once more at the end. -/
theorem last_look (h : Kept answers alarm deadline n now v) :
    ∃ t, v.looks = v.naps.map Nap.start ++ [t] ∧
      (v.taken = true ↔ answers (n + v.naps.length) = 0) ∧
      (v.taken = false →
        deadline < (Nap.of t (.ofMillis (answers (n + v.naps.length)))).finish) := by
  induction h with
  | @taken n now hms => exact ⟨now, rfl, iff_of_true rfl hms, nofun⟩
  | @late n now hms hlate => exact ⟨now, rfl, iff_of_false nofun hms, fun _ => hlate⟩
  | @slept n now v _ _ _ ih =>
    obtain ⟨t, ht, htaken, hlate⟩ := ih
    have hn : n + 1 + v.naps.length = n + (v.naps.length + 1) := by omega
    rw [hn] at htaken hlate
    exact ⟨t, congrArg (_ :: ·) ht, htaken, hlate⟩

/-- Each sleep is as long as the look before it said. -/
theorem lengths_eq (h : Kept answers alarm deadline n now v) :
    v.naps.map Nap.length =
      (List.range' n v.naps.length).map fun i => (Duration.ofMillis (answers i)).nanos := by
  induction h with
  | taken => rfl
  | late => rfl
  | slept _ _ _ ih => exact congrArg (_ :: ·) ih

/-- No sleep begins that is to end after the deadline. -/
theorem finish_le (h : Kept answers alarm deadline n now v) :
    ∀ x ∈ v.naps, x.finish ≤ deadline := by
  induction h with
  | taken => exact nofun
  | late => exact nofun
  | slept _ hle _ ih => exact List.forall_mem_cons.2 ⟨hle, ih⟩

/-- There are not more sleeps than milliseconds. -/
theorem length_naps_le (halarm : ∀ t, Clock.tick t ≤ alarm t)
    (h : Kept answers alarm deadline n now v) : v.naps.length ≤ (deadline - now) / 1_000_000 := by
  induction h with
  | taken => exact Nat.zero_le _
  | late => exact Nat.zero_le _
  | slept hms hle _ ih =>
    have hless := left_lt halarm hms hle
    rw [length_naps_cons]
    omega

/-- Timers that fire in time wake a call at the very end of each sleep, if it begins at a whole
millisecond. -/
theorem tick_finish (h : Kept answers Clock.tick deadline n now v) (hnow : Clock.tick now = now) :
    ∀ x ∈ v.naps, Clock.tick x.finish = x.finish := by
  induction h with
  | taken => exact nofun
  | late => exact nofun
  | @slept n now v _ _ _ ih =>
    have hfinish := Nap.tick_finish (answers n) hnow
    have hrest := ih (congrArg Clock.tick hfinish)
    exact List.forall_mem_cons.2 ⟨hfinish, hrest⟩

end Kept

end Vigil

end Turnstile
