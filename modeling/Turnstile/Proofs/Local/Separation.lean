import Turnstile.Proofs.Local.Neighbors
import Turnstile.Proofs.Local.Pruned
import Turnstile.Proofs.Local.Upkeep

/-!
# Slots do not interfere

What callers of one slot see, and what the store has for it, is as if there were no other slots
(`run_separate`). The run in which calls for other keys do not take place (`runAt`) numbers its
tickets as the run with them does.

`IsPart key s s'` relates the two runs: `s'` is the part of `s` that belongs to `key`. A move for
`key` does the same to both, since it looks at entries of `key` only. A move for another key leaves
that part as it is (`SamePart`): it changes entries of the other key and wakes its callers only,
because whoever waits at an entry came for its key (`Placed`).
-/

namespace Turnstile.Local

namespace Latch

open Traffic

/-- Who is handed the latch because somebody left stood in its line. -/
theorem mem_of_leave_under {k : Option Keeper} {line : List Ticket} {t u : Ticket}
    (h : u ∈ ((under k line).leave t).2.toList) : u ∈ line := by
  have hleave : ∀ h' l, u ∈ ((held h' l).leave t).2.toList → u ∈ l := by
    intro h' l hu
    unfold leave at hu
    dsimp only at hu
    split at hu
    · exact List.mem_of_mem_head? (Option.mem_toList.1 hu)
    · cases hu
  rcases k with _ | ⟨o, v⟩
  · cases line with
    | nil => cases h
    | cons v rest => exact List.mem_cons_of_mem v (hleave v rest h)
  · exact hleave v line h

end Latch

namespace Traffic

open Store

variable {s s' s₁ s₂ : Traffic} {key key' name : String} {t u : Ticket} {a : Attempt} {w : Waiting}
  {p : Progress} {log es : List Entry} {e : Entry} {st st' : Store} {ws : List Ticket} {m : Move}

/-! ## Whose calls these are -/

def Entry.caller? (t : Ticket) : Entry → Option String
  | arrived u a => if u = t then some a.key else none
  | _ => none

/-- The key that the call with the ticket `t` was for. -/
def keyOf? (log : List Entry) (t : Ticket) : Option String := log.findSome? (Entry.caller? t)

/-- The key that an entry is about. -/
def Entry.key? (log : List Entry) : Entry → Option String
  | arrived _ a => some a.key
  | answered _ a _ => some a.key
  | dropped t => keyOf? log t
  | unlocked key _ _ => some key
  | freed key _ => some key
  | asked key _ _ => some key

/-- What the log tells about `key`. -/
def about (key : String) (log : List Entry) : List Entry :=
  log.filter fun e => e.key? log = some key

/-- The tickets that were given to calls for `key`. -/
def ofKey (key : String) (log : List Entry) (ts : List Ticket) : List Ticket :=
  ts.filter fun t => keyOf? log t = some key

theorem keyOf?_append : keyOf? (log ++ es) t = (keyOf? log t).or (keyOf? es t) :=
  List.findSome?_append

theorem keyOf?_eq_none (h : ∀ a, .arrived t a ∉ log) : keyOf? log t = none := by
  refine List.findSome?_eq_none_iff.2 fun e he => ?_
  cases e with
  | arrived u a =>
    have hne : u ≠ t := by
      rintro rfl
      exact h a he
    exact if_neg hne
  | _ => rfl

theorem keyOf?_append_of_some {k : String} (h : keyOf? log t = some k) :
    keyOf? (log ++ es) t = some k := by
  rw [keyOf?_append, h]
  rfl

theorem keyOf?_append_of_none (h : keyOf? es t = none) : keyOf? (log ++ es) t = keyOf? log t := by
  rw [keyOf?_append, h, Option.or_none]

theorem key?_append (h : ∀ t, e = .dropped t → keyOf? es t = none) :
    e.key? (log ++ es) = e.key? log := by
  cases e with
  | dropped t => exact keyOf?_append_of_none (h t rfl)
  | _ => rfl

/-- The entries that follow are all about one key. -/
theorem about_append (hd : ∀ t, .dropped t ∈ log → keyOf? es t = none)
    (hes : ∀ e ∈ es, e.key? (log ++ es) = some key') :
    about key (log ++ es) = about key log ++ if key' = key then es else [] := by
  have hold : (log.filter fun e => e.key? (log ++ es) = some key) = about key log := by
    refine List.filter_congr fun e he => ?_
    rw [key?_append]
    rintro t rfl
    exact hd t he
  unfold about
  rw [List.filter_append, hold]
  congr 1
  split
  · rename_i hk
    subst hk
    exact List.filter_eq_self.2 fun e he => decide_eq_true (hes e he)
  · rename_i hk
    refine List.filter_eq_nil_iff.2 fun e he => ?_
    rw [hes e he, decide_eq_true_eq, Option.some.injEq]
    exact hk

theorem ofKey_congr {ts : List Ticket} (h : ∀ t ∈ ts, keyOf? es t = none) :
    ofKey key (log ++ es) ts = ofKey key log ts :=
  List.filter_congr fun t ht => by rw [keyOf?_append_of_none (h t ht)]

theorem ofKey_append {ts : List Ticket} (h : ∀ t ∈ ws, keyOf? log t = some key') :
    ofKey key log (ts ++ ws) = ofKey key log ts ++ if key' = key then ws else [] := by
  unfold ofKey
  rw [List.filter_append]
  congr 1
  split
  · rename_i hk
    subst hk
    exact List.filter_eq_self.2 fun t ht => decide_eq_true (h t ht)
  · rename_i hk
    refine List.filter_eq_nil_iff.2 fun t ht => ?_
    rw [h t ht, decide_eq_true_eq, Option.some.injEq]
    exact hk

/-- The key that a move names. A look and a drop name a ticket, and are for the key of its call. -/
def Move.key? : Move → Option String
  | begin a => some a.key
  | unlock key _ => some key
  | free key _ => some key
  | giveBack key => some key
  | _ => none

/-! ## Latches of other keys -/

theorem turn?_isLatchOf {x : String × Option Ulid} (h : a.turn? = some x) : IsLatchOf a.key x.1 := by
  cases a with
  | lock =>
    cases h
    exact .inl rfl
  | named =>
    cases h
    exact .inr rfl
  | token => cases h
  | permits => cases h

theorem isAside_of_key? (hk : Strangers key key') (he : e.key? log = some key')
    (hn : IsLatchOf key name) : e.IsAside name := by
  have hother : ∀ {k : String}, IsLatchOf k name → k ≠ key' := by
    rintro k h rfl
    exact hk.latch name hn h
  cases e with
  | arrived => exact Entry.IsQuiet.isAside trivial
  | dropped => exact Entry.IsQuiet.isAside trivial
  | asked => exact Entry.IsQuiet.isAside trivial
  | answered t a o =>
    refine isAside_answered (.inr fun owner ha => ?_)
    exact hother (turn?_isLatchOf ha) (Option.some.inj he)
  | unlocked k u done =>
    refine ⟨nofun, fun hl => ?_⟩
    unfold Entry.letsGo? at hl
    split at hl
    · rename_i heq
      cases heq
      cases hl
      exact hother (.inl rfl) (Option.some.inj he)
    · rename_i heq
      cases heq
    · cases hl
  | freed k t =>
    refine ⟨nofun, fun hl => ?_⟩
    cases hl
    exact hother (.inr rfl) (Option.some.inj he)

/-! ## Whoever waits came for the key -/

structure Placed (s : Traffic) : Prop where
  waiting : ∀ t a w, s.waiting.get? t = some (a, w) →
    IsSlotKey a.key ∧ s.store.Serves a.key w ∧ keyOf? s.log t = some a.key
  woken : ∀ t ∈ s.woken, t < s.tickets
  arrived : ∀ t a, .arrived t a ∈ s.log → t < s.tickets
  dropped : ∀ t, .dropped t ∈ s.log → t < s.tickets

/-- The call waits, and it is for `key`. -/
def WaitsFor (s : Traffic) (key : String) (t : Ticket) : Prop :=
  ∃ a w, s.waiting.get? t = some (a, w) ∧ a.key = key

namespace Placed

theorem start (client : Ulid) : Placed (start client) := ⟨nofun, nofun, nofun, nofun⟩

variable (h : Placed s)
include h

theorem keyOf?_tickets : keyOf? s.log s.tickets = none :=
  keyOf?_eq_none fun a ha => Nat.lt_irrefl _ (h.arrived _ a ha)

theorem keyOf?_of_waitsFor (hu : s.WaitsFor key u) : keyOf? s.log u = some key := by
  obtain ⟨a, w, hg, rfl⟩ := hu
  exact (h.waiting u a w hg).2.2

/-- Who stands in the line of a latch came for its key. -/
theorem waitsFor_of_queue (hk : IsSlotKey key) (hn : IsLatchOf key name)
    (hu : u ∈ queue s.waiting name) : s.WaitsFor key u := by
  obtain ⟨a, w, o, hg, hw⟩ := mem_queue.1 hu
  obtain ⟨hslot, hserves, -⟩ := h.waiting u a w hg
  refine ⟨a, w, hg, ?_⟩
  cases w with
  | token => cases hw
  | permits => cases hw
  | turn =>
    cases hw
    by_contra hne
    exact (hk.strangers hslot (Ne.symm hne)).latch name hn hserves

theorem waitsFor_of_asker (hu : u ∈ askers s.waiting key) : s.WaitsFor key u := by
  obtain ⟨a, w, hg, hw⟩ := mem_askers.1 hu
  obtain ⟨-, hserves, -⟩ := h.waiting u a w hg
  refine ⟨a, w, hg, ?_⟩
  cases w with
  | token => cases hw
  | turn => cases hw
  | permits =>
    cases hw
    exact hserves.symm

/-- Who is woken because somebody left a latch came for its key. -/
theorem waitsFor_of_leave (hs : Sound s) (hk : IsSlotKey key) (hn : IsLatchOf key name)
    (hu : u ∈ ((s.store.latch name).leave t).2.toList) : s.WaitsFor key u := by
  refine h.waitsFor_of_queue hk hn ?_
  rw [(hs.line name).latch] at hu
  exact Latch.mem_of_leave_under hu

theorem waitsFor_of_giveBack (ha : Attended s.waiting s.store)
    (hu : u ∈ (s.store.giveBack key s.now).2) : s.WaitsFor key u := by
  refine h.waitsFor_of_asker ((ha.mem key u).1 ?_)
  unfold Store.giveBack at hu
  split at hu
  · rename_i p hp
    unfold Store.callers
    rw [ofPool_of_get? hp]
    rw [Pool.giveBack_woken] at hu
    split at hu
    · cases hu
    · exact List.mem_append_right _ hu
  · cases hu

theorem waitsFor_of_unlock {v : Ulid} (hs : Sound s) (hk : IsSlotKey key)
    (hu : u ∈ (s.store.unlock key v).2.2) : s.WaitsFor key u := by
  by_cases hv : ∃ t, s.store.holders.get? key = some (v, t)
  · obtain ⟨t, ht⟩ := hv
    rw [unlock_of_mem ht] at hu
    exact h.waitsFor_of_leave hs hk (.inl rfl) hu
  · rw [unlock_of_not_mem (not_exists.1 hv)] at hu
    cases hu

theorem waitsFor_of_cancel (hs : Sound s) (hk : IsSlotKey key) (hw : s.store.Serves key w)
    (hu : u ∈ (s.store.cancel t w).2) : s.WaitsFor key u := by
  cases w with
  | token => cases hu
  | permits => cases hu
  | turn =>
    unfold Store.cancel at hu
    rw [woken_leaveLatch] at hu
    exact h.waitsFor_of_leave hs hk hw hu

theorem waitsFor_of_resume (hs : Sound s) (hk : IsSlotKey key) (hw : s.store.Serves key w)
    (hu : u ∈ (s.store.resume t s.now w).2.1) : s.WaitsFor key u := by
  unfold Store.resume at hu
  cases w with
  | token =>
    dsimp only at hu
    split at hu
    · cases hu
    · cases hu
  | turn =>
    dsimp only at hu
    split at hu
    · cases hu
    · split at hu
      · rw [woken_leaveLatch] at hu
        exact h.waitsFor_of_leave hs hk hw hu
      · cases hu
  | permits =>
    dsimp only at hu
    split at hu
    · cases hu
    · split at hu
      · cases hu
      · split at hu
        · cases hu
        · cases hu

end Placed

theorem WaitsFor.lt (h : s.WaitsFor key u) (hs : Sound s) : u < s.tickets := by
  obtain ⟨a, w, hg, -⟩ := h
  exact hs.fresh u _ hg

/-! ## What a move does to the log -/

/-- The entries tell of no arrival and no drop. -/
def IsPlain (es : List Entry) : Prop := (∀ t a, .arrived t a ∉ es) ∧ ∀ t, .dropped t ∉ es

theorem isPlain_firstAsk : IsPlain (s.firstAsk a) := by
  unfold firstAsk
  split
  · split <;> simp [IsPlain]
  · simp [IsPlain]

theorem isPlain_nextAsk : IsPlain (s.nextAsk t w) := by
  unfold nextAsk
  split
  · split
    · split <;> simp [IsPlain]
    · simp [IsPlain]
  · simp [IsPlain]

theorem isPlain_answer : IsPlain (p.answer?.map (Entry.answered t a)).toList := by
  cases p <;> simp [Progress.answer?, IsPlain]

theorem key?_of_mem_firstAsk (he : e ∈ s.firstAsk a) : e.key? log = some a.key := by
  unfold firstAsk at he
  split at he
  · split at he
    · rw [List.mem_singleton.1 he]
      rfl
    · cases he
  · cases he

theorem key?_of_mem_nextAsk (hw : st.Serves key w) (he : e ∈ s.nextAsk t w) :
    e.key? log = some key := by
  unfold nextAsk at he
  split at he
  · cases hw
    split at he
    · split at he
      · rw [List.mem_singleton.1 he]
        rfl
      · cases he
    · cases he
  · cases he

namespace Placed

variable (h : Placed s)
include h

theorem later (now : Nat) : Placed { s with now } := ⟨h.waiting, h.woken, h.arrived, h.dropped⟩

/-- Waiting calls stay or go, and the log tells of no arrival. -/
theorem grow {waiting : Table Ticket (Attempt × Waiting)} {woken : List Ticket}
    (hc : st.client = s.store.client)
    (hw : ∀ t x, waiting.get? t = some x → s.waiting.get? t = some x)
    (hwoken : ∀ t ∈ woken, t < s.tickets) (harr : ∀ t a, .arrived t a ∉ es)
    (hdrop : ∀ t, .dropped t ∈ es → t < s.tickets) :
    Placed ⟨st, s.now, s.tickets, waiting, woken, s.log ++ es⟩ where
  waiting t a w hg := by
    obtain ⟨hslot, hserves, hkey⟩ := h.waiting t a w (hw t _ hg)
    exact ⟨hslot, (serves_congr hc).2 hserves, keyOf?_append_of_some hkey⟩
  woken := hwoken
  arrived t a ha := by
    rcases List.mem_append.1 ha with ha | ha
    · exact h.arrived t a ha
    · exact absurd ha (harr t a)
  dropped t ht := by
    rcases List.mem_append.1 ht with ht | ht
    · exact h.dropped t ht
    · exact hdrop t ht

theorem arrive (hc : st.client = s.store.client) : Placed (s.arrive a st) where
  waiting t a' w hg := by
    obtain ⟨hslot, hserves, hkey⟩ := h.waiting t a' w hg
    exact ⟨hslot, (serves_congr hc).2 hserves, keyOf?_append_of_some hkey⟩
  woken t ht := Nat.lt_succ_of_lt (h.woken t ht)
  arrived t a' ha := by
    rcases List.mem_append.1 ha with ha | ha
    · exact Nat.lt_succ_of_lt (h.arrived t a' ha)
    · rcases List.mem_cons.1 ha with ha | ha
      · cases ha
        exact Nat.lt_succ_self _
      · exact absurd ha (isPlain_firstAsk.1 t a')
  dropped t ht := by
    rcases List.mem_append.1 ht with ht | ht
    · exact Nat.lt_succ_of_lt (h.dropped t ht)
    · rcases List.mem_cons.1 ht with ht | ht
      · cases ht
      · exact absurd ht (isPlain_firstAsk.2 t)

theorem keyOf?_arrive : keyOf? (s.arrive a st).log s.tickets = some a.key := by
  show keyOf? (s.log ++ Entry.arrived s.tickets a :: s.firstAsk a) s.tickets = _
  rw [keyOf?_append, h.keyOf?_tickets]
  simp [keyOf?, Entry.caller?]

theorem settle (hk : IsSlotKey a.key) (hkey : keyOf? s.log t = some a.key)
    (hp : ∀ w, p = .waiting w → s.store.Serves a.key w) : Placed (s.settle t a p) where
  waiting u a' w hg := by
    have hlog : ∀ k, keyOf? s.log u = some k → keyOf? (s.settle t a p).log u = some k := by
      intro k hu
      rw [settle_log]
      exact keyOf?_append_of_some hu
    rw [settle_store]
    rcases settle_get? hg with hg | ⟨rfl, rfl, rfl⟩
    · obtain ⟨hslot, hserves, hu⟩ := h.waiting u a' w hg
      exact ⟨hslot, hserves, hlog _ hu⟩
    · exact ⟨hk, hp w rfl, hkey⟩
  woken u hu := by
    rw [settle_tickets]
    cases p <;> exact h.woken u hu
  arrived u a' hu := by
    rw [settle_log] at hu
    rw [settle_tickets]
    rcases List.mem_append.1 hu with hu | hu
    · exact h.arrived u a' hu
    · exact absurd hu (isPlain_answer.1 u a')
  dropped u hu := by
    rw [settle_log] at hu
    rw [settle_tickets]
    rcases List.mem_append.1 hu with hu | hu
    · exact h.dropped u hu
    · exact absurd hu (isPlain_answer.2 u)

theorem visit (hc : st.client = s.store.client) (hws : ∀ u ∈ ws, u < s.tickets) :
    Placed (s.visit t w st ws) := by
  refine h.grow hc (fun _ _ hg => hg) (fun u hu => ?_) isPlain_nextAsk.1
    fun u hu => absurd hu (isPlain_nextAsk.2 u)
  rcases List.mem_append.1 hu with hu | hu
  · exact h.woken u (List.mem_filter.1 hu).1
  · exact hws u hu

theorem begin (ha : IsSlotKey a.key) : Placed (s.begin a) := by
  have hwithin : Within a.key s.store (s.store.begin s.tickets s.now a).1 := begin_within
  refine (h.arrive hwithin.client).settle ha h.keyOf?_arrive fun w hw => ?_
  exact (serves_congr hwithin.client).2 (begin_serves hw)

theorem look (hs : Sound s) (hg : s.waiting.get? t = some (a, w)) : Placed (s.look t a w) := by
  obtain ⟨hslot, hserves, hkey⟩ := h.waiting t a w hg
  have hwithin : Within a.key s.store (s.store.resume t s.now w).1 := resume_within hserves
  have hwoken : ∀ u ∈ (s.store.resume t s.now w).2.1, u < s.tickets :=
    fun u hu => (h.waitsFor_of_resume hs hslot hserves hu).lt hs
  have hvisit := h.visit (t := t) (w := w) hwithin.client hwoken
  refine hvisit.settle hslot (keyOf?_append_of_some hkey) fun w' hw' => ?_
  exact (serves_congr hwithin.client).2 (resume_serves hserves hw')

theorem drop (hs : Sound s) (hg : s.waiting.get? t = some (a, w)) : Placed (s.drop t w) := by
  obtain ⟨hslot, hserves, hkey⟩ := h.waiting t a w hg
  have hwithin : Within a.key s.store (s.store.cancel t w).1 := cancel_within hserves
  refine h.grow hwithin.client (fun u x hu => ?_) (fun u hu => ?_) (by simp) fun u hu => ?_
  · rw [Table.get?_erase] at hu
    split at hu
    · cases hu
    · exact hu
  · rcases List.mem_append.1 hu with hu | hu
    · exact h.woken u (List.mem_filter.1 hu).1
    · exact (h.waitsFor_of_cancel hs hslot hserves hu).lt hs
  · obtain rfl : u = t := by simpa using hu
    exact hs.fresh u _ hg

theorem wake (hc : st.client = s.store.client) (hws : ∀ u ∈ ws, u < s.tickets) (hes : IsPlain es) :
    Placed ⟨st, s.now, s.tickets, s.waiting, s.woken ++ ws, s.log ++ es⟩ := by
  refine h.grow hc (fun _ _ hg => hg) (fun u hu => ?_) hes.1 fun u hu => absurd hu (hes.2 u)
  rcases List.mem_append.1 hu with hu | hu
  · exact h.woken u hu
  · exact hws u hu

theorem step (hs : Sound s) (ha : Attended s.waiting s.store)
    (hm : ∀ k, m.key? = some k → IsSlotKey k) : Placed (s.step m) := by
  cases m with
  | begin a => exact h.begin (hm _ rfl)
  | look t =>
    simp only [Traffic.step]
    split
    · rename_i a w hg
      exact h.look hs hg
    · exact h
  | drop t =>
    simp only [Traffic.step]
    split
    · rename_i a w hg
      exact h.drop hs hg
    · exact h
  | unlock key v =>
    exact h.wake unlock_within.client (fun u hu => (h.waitsFor_of_unlock hs (hm _ rfl) hu).lt hs)
      (by simp [IsPlain])
  | free key t =>
    simp only [Traffic.step, Traffic.free]
    split
    · refine h.wake (leaveLatch_within (.inr rfl)).client (fun u hu => ?_) (by simp [IsPlain])
      rw [woken_leaveLatch] at hu
      exact (h.waitsFor_of_leave hs (hm _ rfl) (.inr rfl) hu).lt hs
    · exact h
  | giveBack key =>
    have hwoken : ∀ u ∈ (s.store.giveBack key s.now).2, u < s.tickets :=
      fun u hu => (h.waitsFor_of_giveBack ha hu).lt hs
    have hc : (s.store.giveBack key s.now).1.client = s.store.client := giveBack_within.client
    have hwake := @wake s [] _ _ h hc hwoken (by simp [IsPlain])
    rwa [List.append_nil] at hwake
  | sweep => exact ⟨h.waiting, h.woken, h.arrived, h.dropped⟩
  | pass => exact h.later _

end Placed

/-! ## The part of one key -/

/-- The calls of `waiting` that are for `key`. -/
def callFor (key : String) (waiting : Table Ticket (Attempt × Waiting)) (t : Ticket) :
    Option (Attempt × Waiting) :=
  (waiting.get? t).filter fun x => x.1.key = key

/-- `s'` is the part of `s` that belongs to `key`: the entries of the store, the calls that wait,
the callers that are woken, and what the log tells. -/
structure IsPart (key : String) (s s' : Traffic) : Prop where
  store : Same key s.store s'.store
  now : s'.now = s.now
  tickets : s'.tickets = s.tickets
  waiting : ∀ t, s'.waiting.get? t = callFor key s.waiting t
  woken : s'.woken = ofKey key s.log s.woken
  log : s'.log = about key s.log
  keeper : ∀ name, IsLatchOf key name → keeper name s'.log = keeper name s.log

/-- The part of `key` is the same, but for the number of tickets. -/
structure SamePart (key : String) (s s' : Traffic) : Prop where
  store : Same key s.store s'.store
  now : s'.now = s.now
  waiting : ∀ t, callFor key s'.waiting t = callFor key s.waiting t
  woken : ofKey key s'.log s'.woken = ofKey key s.log s.woken
  log : about key s'.log = about key s.log
  keeper : ∀ name, IsLatchOf key name → keeper name s'.log = keeper name s.log

theorem SamePart.refl : SamePart key s s :=
  ⟨.refl, rfl, fun _ => rfl, rfl, rfl, fun _ _ => rfl⟩

theorem SamePart.trans (h : SamePart key s s₁) (h' : SamePart key s₁ s₂) : SamePart key s s₂ where
  store := h.store.trans h'.store
  now := h'.now.trans h.now
  waiting t := (h'.waiting t).trans (h.waiting t)
  woken := h'.woken.trans h.woken
  log := h'.log.trans h.log
  keeper name hn := (h'.keeper name hn).trans (h.keeper name hn)

theorem SamePart.isPart {n : Nat} (h : SamePart key s s₁) (hp : IsPart key s s')
    (hn : n = s₁.tickets) : IsPart key s₁ { s' with tickets := n } where
  store := h.store.symm.trans hp.store
  now := hp.now.trans h.now.symm
  tickets := hn
  waiting t := (hp.waiting t).trans (h.waiting t).symm
  woken := hp.woken.trans h.woken.symm
  log := hp.log.trans h.log.symm
  keeper name hname := (hp.keeper name hname).trans (h.keeper name hname).symm

theorem keyOf?_new {n : Nat} (hnew : ∀ t a, .arrived t a ∈ es → n ≤ t) (ht : t < n) :
    keyOf? es t = none :=
  keyOf?_eq_none fun a ha => Nat.not_le_of_lt ht (hnew t a ha)

theorem ofKey_grow {ts : List Ticket} {n : Nat} (hnew : ∀ t a, .arrived t a ∈ es → n ≤ t)
    (hts : ∀ t ∈ ts, t < n) : ofKey key (log ++ es) ts = ofKey key log ts :=
  ofKey_congr fun t ht => keyOf?_new hnew (hts t ht)

namespace Placed

variable (h : Placed s)
include h

theorem about_grow (hnew : ∀ t a, .arrived t a ∈ es → s.tickets ≤ t)
    (hes : ∀ e ∈ es, e.key? (s.log ++ es) = some key') :
    about key (s.log ++ es) = about key s.log ++ if key' = key then es else [] :=
  about_append (fun t ht => keyOf?_new hnew (h.dropped t ht)) hes

/-- Everything that changes belongs to another key. -/
theorem samePart {waiting : Table Ticket (Attempt × Waiting)} {woken : List Ticket} {n : Nat}
    (hk : Strangers key key') (hst : Within key' s.store st)
    (hw : ∀ t, callFor key waiting t = callFor key s.waiting t)
    (hwoken : ofKey key s.log woken = ofKey key s.log s.woken) (hlt : ∀ t ∈ woken, t < s.tickets)
    (hnew : ∀ t a, .arrived t a ∈ es → s.tickets ≤ t)
    (hes : ∀ e ∈ es, e.key? (s.log ++ es) = some key') :
    SamePart key s ⟨st, s.now, n, waiting, woken, s.log ++ es⟩ where
  store := hst.same hk
  now := rfl
  waiting := hw
  woken := (ofKey_grow hnew hlt).trans hwoken
  log := by
    rw [h.about_grow hnew hes, if_neg hk.ne.symm]
    exact List.append_nil _
  keeper name hn := keeper_append fun e he => isAside_of_key? hk (hes e he) hn

end Placed

/-- The same happens to the whole and to its part. -/
theorem IsPart.grow {waiting waiting' : Table Ticket (Attempt × Waiting)}
    {woken woken' : List Ticket} {n n' : Nat} (h : IsPart key s s') (hp : Placed s) (hn : n' = n)
    (hst : Same key st st') (hw : ∀ t, waiting'.get? t = callFor key waiting t)
    (hwoken : woken' = ofKey key s.log woken) (hlt : ∀ t ∈ woken, t < s.tickets)
    (hnew : ∀ t a, .arrived t a ∈ es → s.tickets ≤ t)
    (hes : ∀ e ∈ es, e.key? (s.log ++ es) = some key) :
    IsPart key ⟨st, s.now, n, waiting, woken, s.log ++ es⟩
      ⟨st', s'.now, n', waiting', woken', s'.log ++ es⟩ where
  store := hst
  now := h.now
  tickets := hn
  waiting := hw
  woken := hwoken.trans (ofKey_grow hnew hlt).symm
  log := by
    rw [hp.about_grow hnew hes, if_pos rfl, h.log]
  keeper name hn := by
    have hk := h.keeper name hn
    unfold Traffic.keeper at hk ⊢
    rw [List.foldl_append, List.foldl_append, hk]

/-! ## Calls that come, go and are woken -/

theorem callFor_erase (hu : ∀ x, s.waiting.get? t = some x → x.1.key ≠ key) :
    callFor key (s.waiting.erase t) u = callFor key s.waiting u := by
  unfold callFor
  rw [Table.get?_erase]
  split
  · rename_i he
    subst he
    cases hg : s.waiting.get? u with
    | none => rfl
    | some x => simp [Option.filter, hu x hg]
  · rfl

theorem callFor_insert (ha : a.key ≠ key) (hu : ∀ x, s.waiting.get? t = some x → x.1.key ≠ key) :
    callFor key (s.waiting.insert t (a, w)) u = callFor key s.waiting u := by
  unfold callFor
  rw [Table.get?_insert]
  split
  · rename_i he
    subst he
    cases hg : s.waiting.get? u with
    | none => simp [Option.filter, ha]
    | some x => simp [Option.filter, hu x hg, ha]
  · rfl

theorem ofKey_stir {ts : List Ticket} (hws : ∀ u ∈ ws, keyOf? log u = some key') :
    ofKey key log (ts.filter (· ≠ t) ++ ws) =
      (ofKey key log ts).filter (· ≠ t) ++ if key' = key then ws else [] := by
  rw [ofKey_append hws]
  unfold ofKey
  rw [List.filter_filter, List.filter_filter]
  simp only [Bool.and_comm]

/-! ## Moves for other keys -/

namespace Placed

variable (h : Placed s)
include h

theorem arrive_samePart (hk : Strangers key a.key) (hst : Within a.key s.store st) :
    SamePart key s (s.arrive a st) := by
  refine h.samePart hk hst (fun _ => rfl) rfl h.woken (fun t a' ht => ?_) fun e he => ?_
  · rcases List.mem_cons.1 ht with ht | ht
    · cases ht
      exact Nat.le_refl _
    · exact absurd ht (isPlain_firstAsk.1 t a')
  · rcases List.mem_cons.1 he with rfl | he
    · rfl
    · exact key?_of_mem_firstAsk he

theorem settle_samePart (hk : Strangers key a.key)
    (ht : ∀ x, s.waiting.get? t = some x → x.1.key ≠ key) : SamePart key s (s.settle t a p) := by
  cases p with
  | done o =>
    refine h.samePart hk .refl (fun u => callFor_erase ht) rfl h.woken (by simp) fun e he => ?_
    rw [List.mem_singleton.1 he]
    rfl
  | waiting w =>
    exact ⟨.refl, rfl, fun u => callFor_insert hk.ne.symm ht, rfl, rfl, fun _ _ => rfl⟩

/-- The calls that are woken, and the one that looks, came for another key. -/
theorem stir_samePart {waiting : Table Ticket (Attempt × Waiting)} (hs : Sound s)
    (hk : Strangers key key') (hst : Within key' s.store st) (ht : s.WaitsFor key' t)
    (hw : ∀ u, callFor key waiting u = callFor key s.waiting u)
    (hws : ∀ u ∈ ws, s.WaitsFor key' u) (harr : ∀ u a, .arrived u a ∉ es)
    (hes : ∀ e ∈ es, e.key? (s.log ++ es) = some key') :
    SamePart key s
      ⟨st, s.now, s.tickets, waiting, s.woken.filter (· ≠ t) ++ ws, s.log ++ es⟩ := by
  refine h.samePart hk hst hw ?_ ?_ (fun u a' hu => absurd hu (harr u a')) hes
  · rw [ofKey_stir fun u hu => h.keyOf?_of_waitsFor (hws u hu), if_neg hk.ne.symm,
      List.append_nil]
    refine List.filter_eq_self.2 fun u hu => decide_eq_true ?_
    rintro rfl
    have hu := of_decide_eq_true (List.mem_filter.1 hu).2
    rw [h.keyOf?_of_waitsFor ht] at hu
    exact hk.ne (Option.some.inj hu).symm
  · intro u hu
    rcases List.mem_append.1 hu with hu | hu
    · exact h.woken u (List.mem_filter.1 hu).1
    · exact (hws u hu).lt hs

theorem wake_samePart (hs : Sound s) (hk : Strangers key key') (hst : Within key' s.store st)
    (hws : ∀ u ∈ ws, s.WaitsFor key' u) (harr : ∀ u a, .arrived u a ∉ es)
    (hes : ∀ e ∈ es, e.key? (s.log ++ es) = some key') :
    SamePart key s ⟨st, s.now, s.tickets, s.waiting, s.woken ++ ws, s.log ++ es⟩ := by
  refine h.samePart hk hst (fun _ => rfl) ?_ ?_ (fun u a' hu => absurd hu (harr u a')) hes
  · rw [ofKey_append fun u hu => h.keyOf?_of_waitsFor (hws u hu), if_neg hk.ne.symm,
      List.append_nil]
  · intro u hu
    rcases List.mem_append.1 hu with hu | hu
    · exact h.woken u hu
    · exact (hws u hu).lt hs

theorem begin_samePart (hs : Sound s) (hk : Strangers key a.key) : SamePart key s (s.begin a) := by
  have hwithin : Within a.key s.store (s.store.begin s.tickets s.now a).1 := begin_within
  refine (h.arrive_samePart hk hwithin).trans ((h.arrive hwithin.client).settle_samePart hk ?_)
  intro x hx
  cases hs.get?_tickets.symm.trans hx

theorem look_samePart (hs : Sound s) (hk : Strangers key a.key)
    (hg : s.waiting.get? t = some (a, w)) : SamePart key s (s.look t a w) := by
  obtain ⟨hslot, hserves, -⟩ := h.waiting t a w hg
  have hwithin : Within a.key s.store (s.store.resume t s.now w).1 := resume_within hserves
  have hws : ∀ u ∈ (s.store.resume t s.now w).2.1, s.WaitsFor a.key u :=
    fun u hu => h.waitsFor_of_resume hs hslot hserves hu
  have hvisit : SamePart key s (s.visit t w (s.store.resume t s.now w).1
      (s.store.resume t s.now w).2.1) :=
    h.stir_samePart hs hk hwithin ⟨a, w, hg, rfl⟩ (fun _ => rfl) hws isPlain_nextAsk.1
      fun e he => key?_of_mem_nextAsk hserves he
  have hplaced := h.visit (t := t) (w := w) hwithin.client fun u hu => (hws u hu).lt hs
  refine hvisit.trans (hplaced.settle_samePart hk fun x hx => ?_)
  cases hg.symm.trans hx
  exact hk.ne.symm

theorem drop_samePart (hs : Sound s) (hk : Strangers key a.key)
    (hg : s.waiting.get? t = some (a, w)) : SamePart key s (s.drop t w) := by
  obtain ⟨hslot, hserves, hkey⟩ := h.waiting t a w hg
  refine h.stir_samePart hs hk (cancel_within hserves) ⟨a, w, hg, rfl⟩ (fun u => callFor_erase ?_)
    (fun u hu => h.waitsFor_of_cancel hs hslot hserves hu) (by simp) fun e he => ?_
  · intro x hx
    cases hg.symm.trans hx
    exact hk.ne.symm
  · rw [List.mem_singleton.1 he]
    exact keyOf?_append_of_some hkey

theorem unlock_samePart {v : Ulid} (hs : Sound s) (hslot : IsSlotKey key')
    (hk : Strangers key key') : SamePart key s (s.unlock key' v) := by
  refine h.wake_samePart hs hk unlock_within (fun u hu => h.waitsFor_of_unlock hs hslot hu)
    (by simp) fun e he => ?_
  rw [List.mem_singleton.1 he]
  rfl

theorem free_samePart (hs : Sound s) (hslot : IsSlotKey key') (hk : Strangers key key') :
    SamePart key s (s.free key' t) := by
  unfold Traffic.free
  split
  · refine h.wake_samePart hs hk (leaveLatch_within (.inr rfl)) (fun u hu => ?_) (by simp)
      fun e he => ?_
    · rw [woken_leaveLatch] at hu
      exact h.waitsFor_of_leave hs hslot (.inr rfl) hu
    · rw [List.mem_singleton.1 he]
      rfl
  · exact .refl

theorem giveBack_samePart (hs : Sound s) (ha : Attended s.waiting s.store)
    (hk : Strangers key key') : SamePart key s (s.giveBack key') := by
  have hws : ∀ u ∈ (s.store.giveBack key' s.now).2, s.WaitsFor key' u :=
    fun u hu => h.waitsFor_of_giveBack ha hu
  have hst : Within key' s.store (s.store.giveBack key' s.now).1 := giveBack_within
  have hwake := @wake_samePart s key key' [] _ _ h hs hk hst hws (by simp) (by simp)
  rwa [List.append_nil] at hwake

end Placed

/-! ## Moves for the key -/

namespace IsPart

variable (h : IsPart key s s') (hp : Placed s)
include h

theorem callFor_of_get? (hg : s.waiting.get? t = some (a, w)) (ha : a.key = key) :
    s'.waiting.get? t = some (a, w) := by
  rw [h.waiting, callFor, hg]
  simp [Option.filter, ha]

theorem callFor_of_other (hg : ∀ x, s.waiting.get? t = some x → x.1.key ≠ key) :
    s'.waiting.get? t = none := by
  rw [h.waiting, callFor]
  cases hx : s.waiting.get? t with
  | none => rfl
  | some x => simp [Option.filter, hg x hx]

theorem erase (u : Ticket) : (s'.waiting.erase t).get? u = callFor key (s.waiting.erase t) u := by
  rw [callFor, Table.get?_erase, Table.get?_erase]
  split
  · rfl
  · exact h.waiting u

theorem insert (ha : a.key = key) (u : Ticket) :
    (s'.waiting.insert t (a, w)).get? u = callFor key (s.waiting.insert t (a, w)) u := by
  rw [callFor, Table.get?_insert, Table.get?_insert]
  split
  · simp [Option.filter, ha]
  · exact h.waiting u

theorem out : s'.store.out key s'.now = s.store.out key s.now := by
  rw [h.now]
  exact Store.ofPool_of_get?_eq h.store.pool

theorem firstAsk (ha : a.key = key) : s'.firstAsk a = s.firstAsk a := by
  cases a with
  | permits key' plan demand =>
    obtain rfl : key' = key := ha
    unfold Traffic.firstAsk
    dsimp only
    rw [h.out]
  | _ => rfl

theorem nextAsk (hw : s.store.Serves key w) : s'.nextAsk t w = s.nextAsk t w := by
  cases w with
  | permits key' plan n deadline =>
    obtain rfl : key' = key := hw
    unfold Traffic.nextAsk
    dsimp only
    rw [h.out, h.store.pool]
  | _ => rfl

include hp

theorem arrive (ha : a.key = key) (hst : Same key st st') :
    IsPart key (s.arrive a st) (s'.arrive a st') := by
  unfold Traffic.arrive
  rw [h.tickets, h.firstAsk ha]
  refine h.grow hp rfl hst h.waiting h.woken hp.woken (fun t a' ht => ?_) fun e he => ?_
  · rcases List.mem_cons.1 ht with ht | ht
    · cases ht
      exact Nat.le_refl _
    · exact absurd ht (isPlain_firstAsk.1 t a')
  · rcases List.mem_cons.1 he with rfl | he
    · exact congrArg some ha
    · exact (key?_of_mem_firstAsk he).trans (congrArg some ha)

theorem settle (ha : a.key = key) : IsPart key (s.settle t a p) (s'.settle t a p) := by
  cases p with
  | done o =>
    refine h.grow hp h.tickets h.store h.erase h.woken hp.woken (by simp) fun e he => ?_
    rw [List.mem_singleton.1 he]
    exact congrArg some ha
  | waiting w =>
    exact ⟨h.store, h.now, h.tickets, h.insert ha, h.woken, h.log, h.keeper⟩

/-- The callers that are woken, and the one that looks, came for the key. -/
theorem stir {waiting waiting' : Table Ticket (Attempt × Waiting)} (hs : Sound s)
    (hst : Same key st st') (hw : ∀ t, waiting'.get? t = callFor key waiting t)
    (hws : ∀ u ∈ ws, s.WaitsFor key u) (harr : ∀ u a, .arrived u a ∉ es)
    (hes : ∀ e ∈ es, e.key? (s.log ++ es) = some key) :
    IsPart key ⟨st, s.now, s.tickets, waiting, s.woken.filter (· ≠ t) ++ ws, s.log ++ es⟩
      ⟨st', s'.now, s'.tickets, waiting', s'.woken.filter (· ≠ t) ++ ws, s'.log ++ es⟩ := by
  refine h.grow hp h.tickets hst hw ?_ (fun u hu => ?_) (fun u a' hu => absurd hu (harr u a')) hes
  · rw [ofKey_stir fun u hu => hp.keyOf?_of_waitsFor (hws u hu), if_pos rfl, h.woken]
  · rcases List.mem_append.1 hu with hu | hu
    · exact hp.woken u (List.mem_filter.1 hu).1
    · exact (hws u hu).lt hs

theorem wake (hs : Sound s) (hst : Same key st st') (hws : ∀ u ∈ ws, s.WaitsFor key u)
    (harr : ∀ u a, .arrived u a ∉ es) (hes : ∀ e ∈ es, e.key? (s.log ++ es) = some key) :
    IsPart key ⟨st, s.now, s.tickets, s.waiting, s.woken ++ ws, s.log ++ es⟩
      ⟨st', s'.now, s'.tickets, s'.waiting, s'.woken ++ ws, s'.log ++ es⟩ := by
  refine h.grow hp h.tickets hst h.waiting ?_ (fun u hu => ?_)
    (fun u a' hu => absurd hu (harr u a')) hes
  · rw [ofKey_append fun u hu => hp.keyOf?_of_waitsFor (hws u hu), if_pos rfl, h.woken]
  · rcases List.mem_append.1 hu with hu | hu
    · exact hp.woken u hu
    · exact (hws u hu).lt hs

theorem begin (ha : a.key = key) : IsPart key (s.begin a) (s'.begin a) := by
  subst ha
  have halike : Alike a.key (s.store.begin s.tickets s.now a) (s'.store.begin s.tickets s.now a) :=
    begin_same h.store
  have hwithin : Within a.key s.store (s.store.begin s.tickets s.now a).1 := begin_within
  have hsettle := (h.arrive hp rfl halike.store).settle (hp.arrive hwithin.client)
    (t := s.tickets) (a := a) (p := (s.store.begin s.tickets s.now a).2) rfl
  unfold Traffic.begin
  dsimp only
  rw [h.now, h.tickets, halike.answer]
  exact hsettle

theorem look (hs : Sound s) (hg : s.waiting.get? t = some (a, w)) (ha : a.key = key) :
    IsPart key (s.look t a w) (s'.look t a w) := by
  subst ha
  obtain ⟨hslot, hserves, -⟩ := hp.waiting t a w hg
  have halike : Alike a.key (s.store.resume t s.now w) (s'.store.resume t s.now w) :=
    resume_same h.store hserves
  have hwithin : Within a.key s.store (s.store.resume t s.now w).1 := resume_within hserves
  have hws : ∀ u ∈ (s.store.resume t s.now w).2.1, s.WaitsFor a.key u :=
    fun u hu => hp.waitsFor_of_resume hs hslot hserves hu
  have hvisit : IsPart a.key
      (s.visit t w (s.store.resume t s.now w).1 (s.store.resume t s.now w).2.1)
      (s'.visit t w (s'.store.resume t s.now w).1 (s.store.resume t s.now w).2.1) := by
    unfold Traffic.visit
    rw [h.nextAsk hserves]
    exact h.stir hp hs halike.store h.waiting hws isPlain_nextAsk.1
      fun e he => key?_of_mem_nextAsk hserves he
  have hplaced := hp.visit (t := t) (w := w) hwithin.client fun u hu => (hws u hu).lt hs
  unfold Traffic.look
  dsimp only
  rw [h.now, halike.answer]
  exact hvisit.settle hplaced rfl

theorem drop (hs : Sound s) (hg : s.waiting.get? t = some (a, w)) (ha : a.key = key) :
    IsPart key (s.drop t w) (s'.drop t w) := by
  subst ha
  obtain ⟨hslot, hserves, hkey⟩ := hp.waiting t a w hg
  have halike : Alike a.key (s.store.cancel t w) (s'.store.cancel t w) :=
    cancel_same h.store hserves
  unfold Traffic.drop
  dsimp only
  rw [halike.answer]
  refine h.stir hp hs halike.store h.erase
    (fun u hu => hp.waitsFor_of_cancel hs hslot hserves hu) (by simp) fun e he => ?_
  rw [List.mem_singleton.1 he]
  exact keyOf?_append_of_some hkey

theorem unlock {v : Ulid} (hs : Sound s) (hslot : IsSlotKey key) :
    IsPart key (s.unlock key v) (s'.unlock key v) := by
  have halike : Alike key (s.store.unlock key v) (s'.store.unlock key v) := unlock_same h.store
  unfold Traffic.unlock
  dsimp only
  rw [halike.answer]
  refine h.wake hp hs halike.store (fun u hu => hp.waitsFor_of_unlock hs hslot hu) (by simp)
    fun e he => ?_
  rw [List.mem_singleton.1 he]
  rfl

theorem free (hs : Sound s) (hslot : IsSlotKey key) : IsPart key (s.free key t) (s'.free key t) := by
  have hn : IsLatchOf key (lockName key) := .inr rfl
  have halike : Alike key (s.store.leaveLatch (lockName key) t)
      (s'.store.leaveLatch (lockName key) t) := leaveLatch_same h.store hn
  unfold Traffic.free
  dsimp only
  rw [h.keeper _ hn, halike.answer]
  split
  · refine h.wake hp hs halike.store (fun u hu => ?_) (by simp) fun e he => ?_
    · rw [woken_leaveLatch] at hu
      exact hp.waitsFor_of_leave hs hslot hn hu
    · rw [List.mem_singleton.1 he]
      rfl
  · exact h

theorem giveBack (hs : Sound s) (hat : Attended s.waiting s.store) :
    IsPart key (s.giveBack key) (s'.giveBack key) := by
  have halike : Alike key (s.store.giveBack key s.now) (s'.store.giveBack key s.now) :=
    giveBack_same h.store
  have hws : ∀ u ∈ (s.store.giveBack key s.now).2, s.WaitsFor key u :=
    fun u hu => hp.waitsFor_of_giveBack hat hu
  have hwake := @wake s s' key [] _ _ _ h hp hs halike.store hws (by simp) (by simp)
  rw [List.append_nil, List.append_nil] at hwake
  unfold Traffic.giveBack
  dsimp only
  rw [h.now, halike.answer]
  rw [h.now] at hwake
  exact hwake

omit hp in
theorem sweep (time : Nat) : IsPart key (s.step (.sweep time)) (s'.step (.sweep time)) :=
  ⟨sweep_same h.store, h.now, h.tickets, h.waiting, h.woken, h.log, h.keeper⟩

omit hp in
theorem pass (now : Nat) : IsPart key { s with now } { s' with now } :=
  ⟨h.store, rfl, h.tickets, h.waiting, h.woken, h.log, h.keeper⟩

end IsPart

/-! ## A run without the calls for other keys -/

/-- The move is for `key`, or it names no key. -/
def Move.isFor (key : String) (m : Move) : Bool := m.key?.all (· = key)

/-- A call that does not take place leaves its ticket unused. -/
def skip (s : Traffic) : Move → Traffic
  | .begin _ => { s with tickets := s.tickets + 1 }
  | _ => s

def stepAt (key : String) (s : Traffic) (m : Move) : Traffic :=
  if m.isFor key then s.step m else s.skip m

/-- The run in which no calls for other keys than `key` take place. -/
def runAt (s : Traffic) (key : String) (moves : List Move) : Traffic := moves.foldl (stepAt key) s

theorem runAt_concat (moves : List Move) :
    s.runAt key (moves ++ [m]) = (s.runAt key moves).stepAt key m := by
  simp [runAt]

theorem IsPart.start (client : Ulid) (key : String) :
    IsPart key (Traffic.start client) (Traffic.start client) :=
  ⟨.refl, rfl, rfl, fun _ => rfl, rfl, rfl, fun _ _ => rfl⟩

theorem Placed.run (client : Ulid) (moves : List Move)
    (hm : ∀ m ∈ moves, ∀ k, m.key? = some k → IsSlotKey k) :
    Placed ((Traffic.start client).run moves) := by
  induction moves using List.reverseRecOn with
  | nil => exact .start client
  | append_singleton moves m ih =>
    rw [run_concat]
    refine (ih fun m' hm' => hm m' (List.mem_append_left _ hm')).step (run_sound client moves)
      (run_attended client moves) (hm m (by simp))

/-- Who names a ticket either has a call for the key, and then does the same to the part, or has
none in the part. -/
theorem IsPart.turn {f : Traffic → Ticket → Attempt → Waiting → Traffic} (h : IsPart key s s')
    (hp : Placed s) (hk : IsSlotKey key)
    (hown : ∀ a w, s.waiting.get? t = some (a, w) → a.key = key →
      IsPart key (f s t a w) (f s' t a w))
    (hother : ∀ a w, s.waiting.get? t = some (a, w) → Strangers key a.key →
      SamePart key s (f s t a w) ∧ (f s t a w).tickets = s.tickets) :
    IsPart key (match s.waiting.get? t with | some (a, w) => f s t a w | none => s)
      (match s'.waiting.get? t with | some (a, w) => f s' t a w | none => s') := by
  cases hg : s.waiting.get? t with
  | none =>
    rw [h.callFor_of_other (by simp [hg])]
    exact h
  | some x =>
    obtain ⟨a, w⟩ := x
    by_cases ha : a.key = key
    · rw [h.callFor_of_get? hg ha]
      exact hown a w hg ha
    · have hgone : s'.waiting.get? t = none := by
        refine h.callFor_of_other fun x hx => ?_
        cases hg.symm.trans hx
        exact ha
      rw [hgone]
      obtain ⟨hsame, ht⟩ := hother a w hg (hk.strangers (hp.waiting t a w hg).1 (Ne.symm ha))
      exact hsame.isPart h (h.tickets.trans ht.symm)

theorem IsPart.step (h : IsPart key s s') (hp : Placed s) (hs : Sound s)
    (hat : Attended s.waiting s.store) (hk : IsSlotKey key)
    (hm : ∀ k, m.key? = some k → IsSlotKey k) : IsPart key (s.step m) (s'.stepAt key m) := by
  -- A move for another key leaves the part as it is, and does not take place in it.
  have hskip : ∀ k, m.key? = some k → k ≠ key → (Strangers key k → SamePart key s (s.step m)) →
      (s'.skip m).tickets = (s.step m).tickets → { s' with tickets := (s'.skip m).tickets } = s'.skip m →
      IsPart key (s.step m) (s'.stepAt key m) := by
    intro k hmk hne hsame ht hskip
    have hfor : m.isFor key = false := by simp [Move.isFor, hmk, hne]
    unfold stepAt
    rw [hfor, ← hskip]
    exact (hsame (hk.strangers (hm k hmk) (Ne.symm hne))).isPart h ht
  have hfor : ∀ k, m.key? = some k → k = key → s'.stepAt key m = s'.step m := by
    intro k hmk he
    simp [stepAt, Move.isFor, hmk, he]
  cases m with
  | begin a =>
    by_cases ha : a.key = key
    · rw [hfor _ rfl ha]
      exact h.begin hp ha
    · refine hskip _ rfl ha (hp.begin_samePart hs) ?_ rfl
      show s'.tickets + 1 = (s.begin a).tickets
      rw [Sound.begin_tickets, h.tickets]
  | look t =>
    exact h.turn hp hk (fun a w hg ha => h.look hp hs hg ha)
      fun a w hg hstr => ⟨hp.look_samePart hs hstr hg, settle_tickets ..⟩
  | drop t =>
    exact h.turn (f := fun s t _ w => s.drop t w) hp hk (fun a w hg ha => h.drop hp hs hg ha)
      fun a w hg hstr => ⟨hp.drop_samePart hs hstr hg, rfl⟩
  | unlock k v =>
    by_cases hkk : k = key
    · rw [hfor _ rfl hkk]
      subst hkk
      exact h.unlock hp hs hk
    · exact hskip _ rfl hkk (hp.unlock_samePart hs (hm _ rfl)) h.tickets rfl
  | free k t =>
    by_cases hkk : k = key
    · rw [hfor _ rfl hkk]
      subst hkk
      exact h.free hp hs hk
    · refine hskip _ rfl hkk (hp.free_samePart hs (hm _ rfl)) ?_ rfl
      show s'.tickets = (s.free k t).tickets
      unfold Traffic.free
      split
      · exact h.tickets
      · exact h.tickets
  | giveBack k =>
    by_cases hkk : k = key
    · rw [hfor _ rfl hkk]
      subst hkk
      exact h.giveBack hp hs hat
    · exact hskip _ rfl hkk (hp.giveBack_samePart hs hat) h.tickets rfl
  | sweep time => exact h.sweep time
  | pass millis =>
    have hpass := h.pass (s.now + Clock.ofMillis millis)
    show IsPart key _ { s' with now := s'.now + Clock.ofMillis millis }
    rw [h.now]
    exact hpass

/-- Slots do not interfere. At every moment of every run the results of the calls for a slot, the
callers of the slot that wait and those that are woken, and all entries of the store for the slot
are as in the run in which no calls for other slots take place. -/
theorem run_separate (client : Ulid) (key : String) (moves : List Move) (hk : IsSlotKey key)
    (hm : ∀ m ∈ moves, ∀ k, m.key? = some k → IsSlotKey k) :
    IsPart key ((start client).run moves) ((start client).runAt key moves) := by
  induction moves using List.reverseRecOn with
  | nil => exact .start client key
  | append_singleton moves m ih =>
    have hmoves : ∀ m' ∈ moves, ∀ k, m'.key? = some k → IsSlotKey k :=
      fun m' hm' => hm m' (List.mem_append_left _ hm')
    rw [run_concat, runAt_concat]
    exact (ih hmoves).step (.run client moves hmoves) (run_sound client moves)
      (run_attended client moves) hk (hm m (by simp))

def noonKey : String := "occupancy:1:1970-01-01:12:00:00"

def laterKey : String := "occupancy:1:1970-01-01:13:00:00"

/-- The locks of two slots are taken, asked for by others and let go. -/
def sampleRush : List Move :=
  [.begin (.lock noonKey ⟨1⟩ .zero), .begin (.lock laterKey ⟨2⟩ .zero),
    .begin (.lock noonKey ⟨3⟩ (.ofMillis 5)), .begin (.lock laterKey ⟨4⟩ (.ofMillis 5)),
    .unlock laterKey ⟨2⟩, .unlock noonKey ⟨1⟩]

/-- Who waits for the lock of one slot is woken when that lock is let go, and by nothing else. -/
theorem rush_separate :
    IsSlotKey laterKey ∧ (∀ m ∈ sampleRush, ∀ k, m.key? = some k → IsSlotKey k) ∧
      IsPart laterKey ((start ⟨0⟩).run sampleRush) ((start ⟨0⟩).runAt laterKey sampleRush) ∧
      ((start ⟨0⟩).run sampleRush).woken = [3, 2] ∧
      ((start ⟨0⟩).runAt laterKey sampleRush).woken = [3] := by
  have hnoon : IsSlotKey noonKey :=
    ⟨⟨1, .epoch, ⟨43_200, 0, by decide, by decide⟩⟩, by decide +kernel⟩
  have hlater : IsSlotKey laterKey :=
    ⟨⟨1, .epoch, ⟨46_800, 0, by decide, by decide⟩⟩, by decide +kernel⟩
  have hmoves : ∀ m ∈ sampleRush, ∀ k, m.key? = some k → IsSlotKey k := by
    simp [sampleRush, Move.key?, Attempt.key, hlater, hnoon]
  exact ⟨hlater, hmoves, run_separate ⟨0⟩ laterKey sampleRush hlater hmoves, by decide +kernel,
    by decide +kernel⟩

end Traffic

end Turnstile.Local
