import Mathlib.Data.List.GetD
import Mathlib.Data.List.Nodup
import Turnstile.Local.Store
import Turnstile.Proofs.Calendar
import Turnstile.Proofs.Slot

/-!
# Which slots share a name

A key tells the restaurant, the date and the clock time of its slot, and nothing else: the
restaurant has no colon in it, the clock has a fixed width, and a year is signed or has four digits.
The fraction of a start time is left out, so that two slots whose times differ in it have one key
(`shared_key`), and a leap second within a minute is written like the second after it; on whole
seconds a key is one slot's (`key_tells`).

The names derived from a key for the guards are told apart by their colons: a key has five, a named
lock has one more and the bucket of a client two.
-/

namespace Turnstile

open Text

namespace Date

variable {d d' : Date} {y : Int}

theorem text_inj (h : d.text = d'.text) : d = d' := by
  have hread := d.ofText?_text
  rw [h, d'.ofText?_text] at hread
  exact (Option.some.inj hread).symm

theorem colon_not_mem_yearText : ':' ∉ yearText y := by
  have hpadded : ∀ n, ':' ∉ Decimal.padded 4 n := fun _ => Decimal.not_mem_padded rfl
  by_cases hy : 0 ≤ y ∧ y ≤ 9999
  · rw [yearText_plain hy]
    exact hpadded _
  · rw [yearText_signed hy, List.mem_cons, not_or]
    refine ⟨?_, hpadded _⟩
    unfold sign
    split <;> decide

theorem colon_not_mem_text (d : Date) : ':' ∉ d.text := by
  have hpart : ∀ n, ':' ∉ '-' :: Decimal.padded 2 n := by
    intro n
    rw [List.mem_cons, not_or]
    exact ⟨by decide, Decimal.not_mem_padded rfl⟩
  unfold text
  rw [List.mem_append, List.mem_append, not_or, not_or]
  exact ⟨⟨colon_not_mem_yearText, hpart _⟩, hpart _⟩

end Date

namespace TimeOfDay

variable {t t' : TimeOfDay}

/-- The time without its fraction. -/
def clock (t : TimeOfDay) : Nat × Nat × Nat := (t.hour, t.minute, t.second)

/-- There is no fraction, and a leap second comes at the end of a minute. -/
def IsWhole (t : TimeOfDay) : Prop := t.fraction = 0 ∧ t.LeapIsLast

instance (t : TimeOfDay) : Decidable t.IsWhole :=
  inferInstanceAs (Decidable (t.fraction = 0 ∧ t.LeapIsLast))

theorem shown_of_clock (hclock : t.clock = t'.clock) (hfraction : t.fraction = t'.fraction) :
    t.shown = t'.shown := by
  simp only [clock, Prod.mk.injEq] at hclock
  obtain ⟨hhour, hminute, hsecond⟩ := hclock
  have hset := t.ofClock?_eq
  rw [hhour, hminute, hsecond, hfraction, t'.ofClock?_eq] at hset
  exact (Option.some.inj hset).symm

theorem eq_of_clock (h : t.IsWhole) (h' : t'.IsWhole) (hclock : t.clock = t'.clock) : t = t' := by
  have hshown := shown_of_clock hclock (h.1.trans h'.1.symm)
  rwa [shown_of_leapIsLast h.2, shown_of_leapIsLast h'.2] at hshown

theorem clockText_inj : t.clockText = t'.clockText ↔ t.clock = t'.clock := by
  obtain ⟨-, hm, hs⟩ := t.lengths
  obtain ⟨-, hm', hs'⟩ := t'.lengths
  constructor
  · intro h
    obtain ⟨hrest, hsecond⟩ := List.append_inj' h (by simp only [List.length_cons, hs, hs'])
    obtain ⟨hhour, hminute⟩ := List.append_inj' hrest (by simp only [List.length_cons, hm, hm'])
    unfold clock
    rw [Decimal.padded_inj hhour, Decimal.padded_inj (List.cons.inj hminute).2,
      Decimal.padded_inj (List.cons.inj hsecond).2]
  · intro h
    simp only [clock, Prod.mk.injEq] at h
    unfold clockText
    rw [h.1, h.2.1, h.2.2]

theorem count_clockText (t : TimeOfDay) : t.clockText.count ':' = 2 := by
  have hzero : ∀ n, (Decimal.padded 2 n).count ':' = 0 :=
    fun _ => List.count_eq_zero.2 (Decimal.not_mem_padded rfl)
  unfold clockText
  simp only [List.count_append, List.count_cons_self, hzero]

end TimeOfDay

namespace Slot

variable {s s' : Slot}

theorem toList_key (s : Slot) : s.key.text.toList = SlotKey.domain.toList ++
    (':' :: Decimal.digits s.restaurant.toNat ++ ':' :: s.date.text ++
      ':' :: s.time.clockText) := by
  unfold key
  rw [String.toList_append, String.toList_ofList]

/-- A key is that of all slots with its restaurant, its date and its clock time. -/
theorem key_eq_key_iff :
    s.key = s'.key ↔
      s.restaurant = s'.restaurant ∧ s.date = s'.date ∧ s.time.clock = s'.time.clock := by
  constructor
  · intro h
    have hlist := congrArg (·.text.toList) h
    simp only [toList_key, List.append_cancel_left_eq] at hlist
    have hclock : (':' :: s.time.clockText).length = (':' :: s'.time.clockText).length := by
      rw [List.length_cons, List.length_cons, s.time.length_clockText, s'.time.length_clockText]
    obtain ⟨hfront, hback⟩ := List.append_inj' hlist hclock
    have hdigits : ':' ∉ Decimal.digits s.restaurant.toNat := Decimal.not_mem_digits rfl
    have hparts : Decimal.digits s.restaurant.toNat ++ ':' :: s.date.text =
        Decimal.digits s'.restaurant.toNat ++ ':' :: s'.date.text := (List.cons.inj hfront).2
    obtain ⟨hrestaurant, -, hdate⟩ :=
      (List.append_cons_inj_of_notMem hdigits s.date.colon_not_mem_text).1 hparts
    exact ⟨UInt64.toNat_inj.1 (Decimal.digits_inj hrestaurant), Date.text_inj hdate,
      TimeOfDay.clockText_inj.1 (List.cons.inj hback).2⟩
  · rintro ⟨hrestaurant, hdate, hclock⟩
    unfold key
    rw [hrestaurant, hdate, TimeOfDay.clockText_inj.2 hclock]

/-- A key tells the restaurant, the date and the start time to the second that the clock shows. So
it is the key of one slot only, among those that start on a whole second. -/
theorem key_tells (r r' : UInt64) (d d' : Date) (t t' : TimeOfDay) :
    (key ⟨r, d, t⟩ = key ⟨r', d', t'⟩ ↔ r = r' ∧ d = d' ∧ t.clock = t'.clock) ∧
      (t.IsWhole → t'.IsWhole →
        (key ⟨r, d, t⟩ = key ⟨r', d', t'⟩ ↔ r = r' ∧ d = d' ∧ t = t')) := by
  have hkey : key ⟨r, d, t⟩ = key ⟨r', d', t'⟩ ↔ r = r' ∧ d = d' ∧ t.clock = t'.clock :=
    key_eq_key_iff
  refine ⟨hkey, fun h h' => hkey.trans ⟨?_, ?_⟩⟩
  · rintro ⟨hr, hd, hc⟩
    exact ⟨hr, hd, TimeOfDay.eq_of_clock h h' hc⟩
  · rintro ⟨hr, hd, rfl⟩
    exact ⟨hr, hd, rfl⟩

/-- A leap second has a key of its own. -/
theorem leap_key :
    let last : TimeOfDay := ⟨86_399, 0, by decide, by decide⟩
    let leap : TimeOfDay := ⟨86_399, 1_000_000_000, by decide, by decide⟩
    last.IsWhole ∧ leap.IsWhole ∧ key ⟨1, .epoch, last⟩ ≠ key ⟨1, .epoch, leap⟩ := by
  intro last leap
  have hlast : last.IsWhole := by decide
  have hleap : leap.IsWhole := by decide
  refine ⟨hlast, hleap, fun h => ?_⟩
  obtain ⟨-, -, he⟩ := ((key_tells 1 1 .epoch .epoch last leap).2 hlast hleap).1 h
  exact absurd (congrArg TimeOfDay.nanos he) (by decide)

/-- Half a second later is another slot, under the same key. -/
theorem shared_key :
    let eleven : TimeOfDay := ⟨39_600, 0, by decide, by decide⟩
    let later : TimeOfDay := ⟨39_600, 500_000_000, by decide, by decide⟩
    eleven ≠ later ∧ key ⟨1, .epoch, eleven⟩ = key ⟨1, .epoch, later⟩ :=
  ⟨by decide, rfl⟩

end Slot

/-! ## Names derived from a key -/

/-- The text is the key of some slot. -/
def IsSlotKey (key : String) : Prop := ∃ s : Slot, s.key.text = key

theorem Slot.count_key (s : Slot) : s.key.text.toList.count ':' = 5 := by
  have hdigits : ':' ∉ Decimal.digits s.restaurant.toNat := Decimal.not_mem_digits rfl
  rw [toList_key]
  simp only [List.count_append, List.count_cons_self, List.count_eq_zero.2 hdigits,
    List.count_eq_zero.2 s.date.colon_not_mem_text, s.time.count_clockText]
  rfl

namespace IsSlotKey

variable {k k' : String}

theorem count (h : IsSlotKey k) : k.toList.count ':' = 5 := by
  obtain ⟨s, rfl⟩ := h
  exact s.count_key

theorem ne_scopedTo (h : IsSlotKey k) (h' : IsSlotKey k') (u : Ulid) :
    k' ≠ SlotKey.scopedTo ⟨k⟩ u := by
  intro he
  have hcount := h'.count
  have hclient : ":client:".toList.count ':' = 2 := rfl
  unfold SlotKey.scopedTo at he
  rw [he, String.toList_append, String.toList_append, List.count_append, List.count_append,
    h.count, hclient] at hcount
  omega

theorem ne_lockName (h : IsSlotKey k) (h' : IsSlotKey k') : k' ≠ Local.Store.lockName k := by
  intro he
  have hcount := h'.count
  have hlock : "named_lock:".toList.count ':' = 1 := rfl
  unfold Local.Store.lockName at he
  rw [he, String.toList_append, List.count_append, h.count, hlock] at hcount
  omega

end IsSlotKey

namespace Ulid

variable {i j k m n : Nat} {u u' : Ulid}

theorem digit_inj (hi : i < 32) (hj : j < 32)
    (h : alphabet.getD i '0' = alphabet.getD j '0') : i = j := by
  have hnodup : alphabet.Nodup := by decide
  have hlen : alphabet.length = 32 := rfl
  rw [List.getD_eq_getElem _ _ (hlen ▸ hi), List.getD_eq_getElem _ _ (hlen ▸ hj)] at h
  exact (List.Nodup.getElem_inj_iff hnodup).1 h

theorem base32_inj (hm : m < 32 ^ k) (hn : n < 32 ^ k) (h : base32 k m = base32 k n) : m = n := by
  induction k generalizing m n with
  | zero =>
    rw [pow_zero] at hm hn
    omega
  | succ k ih =>
    obtain ⟨hfront, hlast⟩ := List.append_inj' h rfl
    have hdiv : m / 32 = n / 32 := by
      rw [pow_succ] at hm hn
      exact ih (Nat.div_lt_of_lt_mul (by omega)) (Nat.div_lt_of_lt_mul (by omega)) hfront
    have hmod : m % 32 = n % 32 :=
      digit_inj (Nat.mod_lt _ (by decide)) (Nat.mod_lt _ (by decide)) (List.cons.inj hlast).1
    omega

theorem text_inj (h : u.text = u'.text) : u = u' := by
  have hlt : ∀ v : Ulid, v.value.toNat < 32 ^ 26 := fun v =>
    Nat.lt_of_lt_of_le v.value.isLt (by decide)
  obtain ⟨value⟩ := u
  obtain ⟨value'⟩ := u'
  rw [Ulid.mk.injEq]
  exact BitVec.eq_of_toNat_eq (base32_inj (hlt ⟨value⟩) (hlt ⟨value'⟩) h)

end Ulid

theorem SlotKey.scopedTo_inj {k k' : SlotKey} {u u' : Ulid} (h : k.scopedTo u = k'.scopedTo u') :
    k = k' ∧ u = u' := by
  have hlist := congrArg String.toList h
  simp only [scopedTo, String.toList_append, String.toList_ofList] at hlist
  obtain ⟨hfront, hclient⟩ := List.append_inj' hlist (by rw [u.length_text, u'.length_text])
  obtain ⟨text⟩ := k
  obtain ⟨text'⟩ := k'
  rw [SlotKey.mk.injEq]
  exact ⟨String.toList_inj.1 (List.append_cancel_right hfront), Ulid.text_inj hclient⟩

namespace Local.Store

theorem lockName_inj {k k' : String} (h : lockName k = lockName k') : k = k' := by
  have hlist := congrArg String.toList h
  simp only [lockName, String.toList_append, List.append_cancel_left_eq] at hlist
  exact String.toList_inj.1 hlist

/-- Buckets of two slots have different names. -/
theorem bucketName_inj {s : Store} {k k' : String} {scope scope' : RateScope} (hk : IsSlotKey k)
    (hk' : IsSlotKey k') (h : s.bucketName k scope = s.bucketName k' scope') : k = k' := by
  cases scope with
  | whole =>
    cases scope' with
    | whole => exact h
    | perClient => exact absurd h (hk'.ne_scopedTo hk _)
  | perClient =>
    cases scope' with
    | whole => exact absurd h.symm (hk.ne_scopedTo hk' _)
    | perClient => exact congrArg SlotKey.text (SlotKey.scopedTo_inj h).1

end Local.Store

end Turnstile
