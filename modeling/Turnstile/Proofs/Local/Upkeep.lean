import Turnstile.Proofs.Local.Callers
import Turnstile.Proofs.Local.Fairness

/-!
# What a sweep removes

A sweep keeps the latches that are held or waited for, the pools that are waited at or have not
expired and the buckets that have not expired, and nothing else (`run_upkept`). It may decide so by
counting who refers to an entry: besides the table that is every suspended call and every guard of
a latch that somebody keeps. The counts are right because the callers that a pool lists are the
suspended calls for its permits (`Attended`), as the line of a latch is its queue (`InLine`).
-/

namespace Turnstile

namespace Table

variable {κ α : Type} [DecidableEq κ] {t : Table κ α} {p q : κ → α → Bool} {P : κ → α → Prop}

/-- `t'` has the entries of `t` that satisfy `P`, and no others. -/
def Keeps (t t' : Table κ α) (P : κ → α → Prop) : Prop :=
  ∀ k a, t'.get? k = some a ↔ t.get? k = some a ∧ P k a

/-- The keys of `t` that `t'` has not. -/
def lost (t t' : Table κ α) : List κ := (t.entries.map (·.1)).filter fun k => !t'.contains k

theorem get?_retain_eq_some {k : κ} {a : α} :
    (t.retain p).get? k = some a ↔ t.get? k = some a ∧ p k a = true := by
  rw [get?_retain, Option.filter_eq_some_iff]

theorem keeps_retain (h : ∀ k a, t.get? k = some a → (p k a = true ↔ P k a)) :
    t.Keeps (t.retain p) P := by
  intro k a
  rw [get?_retain_eq_some]
  exact ⟨fun ⟨hg, hp⟩ => ⟨hg, (h k a hg).1 hp⟩, fun ⟨hg, hp⟩ => ⟨hg, (h k a hg).2 hp⟩⟩

theorem retain_congr (h : ∀ k a, t.get? k = some a → p k a = q k a) : t.retain p = t.retain q := by
  have he : (t.entries.filter fun e => p e.1 e.2) = t.entries.filter fun e => q e.1 e.2 :=
    List.filter_congr fun e hm => h e.1 e.2 (get?_eq_some_iff.2 hm)
  simp only [retain, he]

theorem retain_eq_empty (h : ∀ k a, t.get? k = some a → p k a = false) : t.retain p = .empty := by
  have he : (t.entries.filter fun e => p e.1 e.2) = [] :=
    List.filter_eq_nil_iff.2 fun e hm => by simp [h e.1 e.2 (get?_eq_some_iff.2 hm)]
  simp only [retain, he]
  rfl

theorem eq_empty (h : ∀ k, t.get? k = none) : t = .empty := by
  obtain ⟨entries, distinct⟩ := t
  cases entries with
  | nil => rfl
  | cons e rest =>
    have hg : (⟨e :: rest, distinct⟩ : Table κ α).get? e.1 = some e.2 :=
      get?_eq_some_iff.2 (List.mem_cons_self ..)
    rw [h] at hg
    cases hg

theorem lost_retain : t.lost (t.retain p) = (t.entries.filter fun e => !p e.1 e.2).map (·.1) := by
  unfold lost
  rw [List.filter_map]
  congr 1
  refine List.filter_congr fun e hm => ?_
  have hg : t.get? e.1 = some e.2 := get?_eq_some_iff.2 hm
  simp only [Function.comp, contains, get?_retain, hg]
  cases hp : p e.1 e.2 <;> simp [Option.filter, hp]

theorem size_retain : (t.retain p).size + (t.lost (t.retain p)).length = t.size := by
  rw [lost_retain, List.length_map]
  exact (List.length_eq_length_filter_add ..).symm

end Table

namespace Local

theorem Store.buckets_sweep {s : Store} {time : Nat} :
    (s.sweep time).buckets = s.buckets.retain fun _ b => !b.isExpired time := rfl

theorem Store.pools_sweep {s : Store} {time : Nat} :
    (s.sweep time).pools = s.pools.retain fun _ p => p.isAwaited || !p.isExpired time := rfl

theorem Store.latches_sweep {s : Store} {time : Nat} :
    (s.sweep time).latches = s.latches.retain fun _ l => !l.isIdle := rfl

/-- A sweep returns the number of the entries that it removed. -/
theorem Store.swept_eq_lost {s : Store} {time : Nat} :
    s.swept time = (s.buckets.lost (s.sweep time).buckets).length +
      (s.pools.lost (s.sweep time).pools).length +
      (s.latches.lost (s.sweep time).latches).length := by
  have hb : (s.sweep time).buckets.size + (s.buckets.lost (s.sweep time).buckets).length =
      s.buckets.size := Table.size_retain
  have hp : (s.sweep time).pools.size + (s.pools.lost (s.sweep time).pools).length =
      s.pools.size := Table.size_retain
  have hl : (s.sweep time).latches.size + (s.latches.lost (s.sweep time).latches).length =
      s.latches.size := Table.size_retain
  unfold swept entryCount
  omega

namespace Traffic

variable {s s₀ : Traffic} {key name : String} {t : Ticket} {a : Attempt} {w : Waiting}
  {p : Progress} {waiting waiting' : Table Ticket (Attempt × Waiting)} {store store' : Store}
  {at? : Option String}

/-! ## Calls that are suspended at a pool -/

/-- The suspended calls for permits of `key`. -/
def askers (waiting : Table Ticket (Attempt × Waiting)) (key : String) : List Ticket :=
  (waiting.entries.filter fun x => x.2.2.pool? = some key).map (·.1)

theorem mem_askers :
    t ∈ askers waiting key ↔ ∃ a w, waiting.get? t = some (a, w) ∧ w.pool? = some key := by
  unfold askers
  rw [List.mem_map]
  constructor
  · rintro ⟨⟨u, a, w⟩, hm, rfl⟩
    obtain ⟨hm, hw⟩ := List.mem_filter.1 hm
    exact ⟨a, w, Table.get?_eq_some_iff.2 hm, of_decide_eq_true hw⟩
  · rintro ⟨a, w, hg, hw⟩
    exact ⟨(t, a, w), List.mem_filter.2 ⟨Table.get?_eq_some_iff.1 hg, decide_eq_true hw⟩, rfl⟩

theorem nodup_askers : (askers waiting key).Nodup :=
  waiting.distinct.sublist (List.filter_sublist.map _)

/-- A pool lists the calls that are suspended at it, each of them once. -/
abbrev Attended (waiting : Table Ticket (Attempt × Waiting)) (store : Store) : Prop :=
  store.Attends fun t key => t ∈ askers waiting key

namespace Attended

theorem start (client : Ulid) : Attended (start client).waiting (start client).store :=
  ⟨fun _ => List.nodup_nil, fun _ _ => Iff.rfl⟩

theorem perm (h : Attended waiting store) (key : String) :
    (store.callers key).Perm (askers waiting key) :=
  (List.perm_ext_iff_of_nodup (h.nodup key) nodup_askers).2 (h.mem key)

theorem not_mem (h : Attended waiting store) (hg : waiting.get? t = none) (key : String) :
    t ∉ store.callers key := by
  intro hm
  obtain ⟨a, w, hg', -⟩ := mem_askers.1 ((h.mem key t).1 hm)
  cases hg.symm.trans hg'

theorem mem_of_get? (h : Attended waiting store) (hg : waiting.get? t = some (a, w))
    (key : String) : t ∈ store.callers key ↔ w.pool? = some key := by
  rw [h.mem, mem_askers]
  constructor
  · rintro ⟨a', w', hg', hw⟩
    cases hg.symm.trans hg'
    exact hw
  · exact fun hw => ⟨a, w, hg, hw⟩

/-- One attempt settles, and the table of suspended calls says so. -/
theorem settles (h : Attended waiting store) (hs : store.Settles store' t at?)
    (hnew : ∀ key, t ∈ askers waiting' key ↔ at? = some key)
    (hold : ∀ u, u ≠ t → waiting'.get? u = waiting.get? u) : Attended waiting' store' := by
  refine Store.Attends.settles h hs hnew fun u key hu => ?_
  rw [mem_askers, mem_askers, hold u hu]

theorem settle (h : Attended s₀.waiting store) (hs : store.Settles s₀.store t p.pool?) :
    Attended (s₀.settle t a p).waiting (s₀.settle t a p).store := by
  rw [settle_store]
  refine h.settles hs (fun key => ?_) fun u hu => ?_
  · rw [mem_askers]
    cases p with
    | done o =>
      have hg : (s₀.waiting.erase t).get? t = none := by rw [Table.get?_erase, if_pos rfl]
      constructor
      · rintro ⟨a', w', hg', -⟩
        cases hg.symm.trans hg'
      · exact nofun
    | waiting w =>
      have hg : (s₀.waiting.insert t (a, w)).get? t = some (a, w) := by
        rw [Table.get?_insert, if_pos rfl]
      constructor
      · rintro ⟨a', w', hg', hw⟩
        cases hg.symm.trans hg'
        exact hw
      · exact fun hw => ⟨a, w, hg, hw⟩
  · cases p with
    | done o => exact (Table.get?_erase ..).trans (if_neg hu)
    | waiting w => exact (Table.get?_insert ..).trans (if_neg hu)

theorem drop (h : Attended s.waiting s.store) (hg : s.waiting.get? t = some (a, w)) :
    Attended (s.drop t w).waiting (s.drop t w).store := by
  refine h.settles (Store.cancel_settles h.nodup (h.mem_of_get? hg)) (fun key => ?_) fun u hu => ?_
  · have hgone : (s.waiting.erase t).get? t = none := by rw [Table.get?_erase, if_pos rfl]
    constructor
    · intro hm
      obtain ⟨a', w', hg', -⟩ := mem_askers.1 hm
      cases hgone.symm.trans hg'
    · exact nofun
  · exact (Table.get?_erase ..).trans (if_neg hu)

theorem step (h : Attended s.waiting s.store) (hs : Sound s) (m : Move) :
    Attended (s.step m).waiting (s.step m).store := by
  cases m with
  | begin a =>
    exact settle h (Store.begin_settles (h.not_mem hs.get?_tickets))
  | look t =>
    unfold Traffic.step
    dsimp only
    split
    · rename_i a w hg
      exact settle h (Store.resume_settles h.nodup (h.mem_of_get? hg))
    · exact h
  | drop t =>
    unfold Traffic.step
    dsimp only
    split
    · rename_i a w hg
      exact h.drop hg
    · exact h
  | unlock key u =>
    exact h.congr fun _ => Store.ofPool_congr unlock_pools
  | free key t =>
    unfold Traffic.step Traffic.free
    dsimp only
    split
    · exact h.congr fun _ => Store.ofPool_congr Store.pools_leaveLatch
    · exact h
  | giveBack key => exact h.congr Store.callers_giveBack
  | sweep time => exact h.congr fun _ => Store.callers_sweep
  | pass millis =>
    obtain ⟨now, -, hpass⟩ := s.step_pass millis
    rw [hpass s rfl]
    exact h

end Attended

theorem run_attended (client : Ulid) (moves : List Move) :
    Attended ((start client).run moves).waiting ((start client).run moves).store := by
  have h₀ : Sound (Traffic.start client) ∧
      Attended (Traffic.start client).waiting (Traffic.start client).store :=
    ⟨.start client, .start client⟩
  have hstep : ∀ s m, Sound s ∧ Attended s.waiting s.store →
      Sound (s.step m) ∧ Attended (s.step m).waiting (s.step m).store :=
    fun _ m h => ⟨h.1.step m, h.2.step h.1 m⟩
  exact (run_induction h₀ hstep moves).2

/-! ## Sweeps -/

/-- Who refers to a latch: the table, the calls suspended in its line and the guard of its
keeper. -/
def latchRefs (s : Traffic) (name : String) : Nat :=
  1 + (queue s.waiting name).length + (keeper name s.log).toList.length

/-- Who refers to a pool: the table and the calls suspended at it. -/
def poolRefs (s : Traffic) (key : String) : Nat := 1 + (askers s.waiting key).length

/-- A sweep that looks at counts of references and at the holders of fair locks, not into lines. -/
def evict (s : Traffic) (time : Nat) : Store :=
  { s.store with
    buckets := s.store.buckets.retain fun _ b => !b.isExpired time
    pools := s.store.pools.retain fun key p => 1 < s.poolRefs key || !p.isExpired time
    latches := s.store.latches.retain fun name _ =>
      1 < s.latchRefs name || s.store.holders.contains name }

/-- No call is suspended and no latch is kept. -/
structure IsQuiet (s : Traffic) : Prop where
  waiting : ∀ t, s.waiting.get? t = none
  keeper : ∀ name, keeper name s.log = none

/-- What a sweep for the instant `time` does. -/
structure Upkept (s : Traffic) (time : Nat) : Prop where
  /-- A latch stays if somebody keeps it, for a fair or a named lock, or waits for it. -/
  latches : s.store.latches.Keeps (s.store.sweep time).latches fun name _ =>
    keeper name s.log ≠ none ∨ queue s.waiting name ≠ []
  /-- A pool stays if a call is suspended at it or it was touched within its lifetime. -/
  pools : s.store.pools.Keeps (s.store.sweep time).pools fun key p =>
    askers s.waiting key ≠ [] ∨ Clock.since time p.lastTouched ≤ p.lifetime
  buckets : s.store.buckets.Keeps (s.store.sweep time).buckets fun _ b =>
    Clock.since time b.lastTouched ≤ b.plan.lifetime
  swept : s.store.swept time =
    (s.store.buckets.lost (s.store.sweep time).buckets).length +
      (s.store.pools.lost (s.store.sweep time).pools).length +
      (s.store.latches.lost (s.store.sweep time).latches).length
  counted : s.evict time = s.store.sweep time
  /-- The keeper of a latch and those who wait for it are in the entry of the table, and nobody
  else is. -/
  latch : ∀ name, keeper name s.log ≠ none ∨ queue s.waiting name ≠ [] →
    s.store.latches.get? name = some (.under (keeper name s.log) (queue s.waiting name))
  holder : ∀ key u t, s.store.holders.get? key = some (u, t) →
    ∃ line, s.store.latches.get? key = some (.held t line)
  /-- The calls that are suspended at a pool are those of the entry of the table. -/
  pool : ∀ key, askers s.waiting key ≠ [] →
    ∃ p, s.store.pools.get? key = some p ∧ p.callers.Perm (askers s.waiting key)
  /-- Later than every lifetime nothing is left of a store that nobody uses. -/
  empties : s.IsQuiet →
    (∀ name b, s.store.buckets.get? name = some b →
      b.plan.lifetime < Clock.since time b.lastTouched) →
    (∀ key p, s.store.pools.get? key = some p → p.lifetime < Clock.since time p.lastTouched) →
    s.store.sweep time = .fresh s.store.client ∧ s.store.swept time = s.store.entryCount

theorem isIdle_iff_not_used (h : Sound s) :
    (s.store.latch name).isIdle = false ↔
      keeper name s.log ≠ none ∨ queue s.waiting name ≠ [] := by
  rw [← Bool.not_eq_true, h.isIdle_iff]
  unfold IsFree
  rw [not_and_or]

theorem latch_of_get? {l : Latch} (h : s.store.latches.get? name = some l) :
    s.store.latch name = l := by
  simp [Store.latch, h]

theorem get?_of_used (h : Sound s)
    (hu : keeper name s.log ≠ none ∨ queue s.waiting name ≠ []) :
    s.store.latches.get? name = some (.under (keeper name s.log) (queue s.waiting name)) := by
  have hi := (isIdle_iff_not_used h).2 hu
  have hl := (h.line name).latch
  cases hg : s.store.latches.get? name with
  | none =>
    rw [Store.latch, hg] at hi
    cases hi
  | some l => rw [← latch_of_get? hg, hl]

theorem isAwaited_iff_askers (h : Attended s.waiting s.store) {p : Pool}
    (hp : s.store.pools.get? key = some p) :
    p.isAwaited = true ↔ askers s.waiting key ≠ [] := by
  have hperm := h.perm key
  unfold Store.callers at hperm
  rw [Store.ofPool_of_get? hp] at hperm
  rw [Pool.isAwaited_iff, not_iff_not]
  exact ⟨fun he => List.nil_perm.1 (he ▸ hperm), fun he => List.perm_nil.1 (he ▸ hperm)⟩

theorem not_lt_duration {d e : Duration} : ¬ d < e ↔ e ≤ d := Nat.not_lt

theorem one_lt_poolRefs : 1 < s.poolRefs key ↔ askers s.waiting key ≠ [] := by
  unfold poolRefs
  rw [← List.length_pos_iff]
  omega

/-- A fair lock has a keeper whom the count has seen already. -/
theorem one_lt_latchRefs (h : Sound s) :
    (1 < s.latchRefs name ∨ s.store.holders.contains name = true) ↔
      keeper name s.log ≠ none ∨ queue s.waiting name ≠ [] := by
  have hholder : s.store.holders.contains name = true → keeper name s.log ≠ none := by
    intro hc hk
    rw [Table.contains, (h.line name).holder, hk] at hc
    cases hc
  have hrefs : 1 < s.latchRefs name ↔ keeper name s.log ≠ none ∨ queue s.waiting name ≠ [] := by
    unfold latchRefs
    rw [← List.length_pos_iff]
    cases keeper name s.log with
    | none => simp
    | some k =>
      simp only [Option.toList_some, List.length_singleton, ne_eq, reduceCtorEq,
        not_false_eq_true, true_or, iff_true]
      omega
  rw [hrefs]
  exact ⟨fun hu => hu.elim id fun hc => .inl (hholder hc), .inl⟩

theorem evict_eq_sweep (h : Sound s) (ha : Attended s.waiting s.store) (time : Nat) :
    s.evict time = s.store.sweep time := by
  have hpools : (s.store.pools.retain fun key p => 1 < s.poolRefs key || !p.isExpired time) =
      (s.store.sweep time).pools := by
    rw [Store.pools_sweep]
    refine Table.retain_congr fun key p hp => ?_
    rw [Bool.eq_iff_iff, Bool.or_eq_true, Bool.or_eq_true, decide_eq_true_iff, one_lt_poolRefs,
      isAwaited_iff_askers ha hp]
  have hlatches : (s.store.latches.retain fun name _ =>
      1 < s.latchRefs name || s.store.holders.contains name) = (s.store.sweep time).latches := by
    rw [Store.latches_sweep]
    refine Table.retain_congr fun name l hl => ?_
    rw [Bool.eq_iff_iff, Bool.or_eq_true, decide_eq_true_iff, one_lt_latchRefs h,
      ← isIdle_iff_not_used h, latch_of_get? hl, Bool.not_eq_true']
  unfold evict
  rw [hpools, hlatches]
  rfl

theorem sweep_eq_fresh (h : Sound s) (ha : Attended s.waiting s.store) {time : Nat}
    (hq : s.IsQuiet)
    (hb : ∀ name b, s.store.buckets.get? name = some b → b.isExpired time = true)
    (hp : ∀ key p, s.store.pools.get? key = some p → p.isExpired time = true) :
    s.store.sweep time = .fresh s.store.client := by
  have hqueue : ∀ name, queue s.waiting name = [] := by
    intro name
    refine List.eq_nil_iff_forall_not_mem.2 fun t ht => ?_
    exact not_mem_queue (hq.waiting t) ht
  have haskers : ∀ key, askers s.waiting key = [] := by
    intro key
    refine List.eq_nil_iff_forall_not_mem.2 fun t ht => ?_
    obtain ⟨a, w, hg, -⟩ := mem_askers.1 ht
    cases (hq.waiting t).symm.trans hg
  have hbuckets : (s.store.sweep time).buckets = .empty := by
    rw [Store.buckets_sweep]
    exact Table.retain_eq_empty fun name b hg => by rw [hb name b hg]; rfl
  have hpools : (s.store.sweep time).pools = .empty := by
    rw [Store.pools_sweep]
    refine Table.retain_eq_empty fun key p hg => ?_
    have hw : p.isAwaited = false := by
      rw [← Bool.not_eq_true, isAwaited_iff_askers ha hg, not_not]
      exact haskers key
    simp [hw, hp key p hg]
  have hlatches : (s.store.sweep time).latches = .empty := by
    rw [Store.latches_sweep]
    refine Table.retain_eq_empty fun name l hg => ?_
    have hi : l.isIdle = true := by
      rw [← latch_of_get? hg, h.isIdle_iff]
      exact ⟨hq.keeper name, hqueue name⟩
    simp [hi]
  have hholders : (s.store.sweep time).holders = .empty := by
    refine Table.eq_empty fun name => ?_
    show s.store.holders.get? name = none
    rw [(h.line name).holder, hq.keeper name]
    rfl
  unfold Store.fresh
  rw [← hbuckets, ← hpools, ← hlatches, ← hholders]
  rfl

/-- After every run, a sweep for any instant removes what is unused, and nothing else. -/
theorem run_upkept (client : Ulid) (moves : List Move) (time : Nat) :
    Upkept ((start client).run moves) time := by
  have h := run_sound client moves
  have ha := run_attended client moves
  refine ⟨?latches, ?pools, ?buckets, ?swept, ?counted, ?latch, ?holder, ?pool, ?empties⟩
  case latches =>
    refine Table.keeps_retain fun name l hl => ?_
    rw [← isIdle_iff_not_used h, latch_of_get? hl, Bool.not_eq_true']
  case pools =>
    refine Table.keeps_retain fun key p hp => ?_
    rw [Bool.or_eq_true, isAwaited_iff_askers ha hp, Bool.not_eq_true', Pool.isExpired,
      decide_eq_false_iff_not, not_lt_duration]
  case buckets =>
    refine Table.keeps_retain fun name b _ => ?_
    rw [Bool.not_eq_true', Bucket.isExpired, decide_eq_false_iff_not, not_lt_duration]
  case swept => exact Store.swept_eq_lost
  case counted => exact evict_eq_sweep h ha time
  case latch => exact fun name hu => get?_of_used h hu
  case holder =>
    intro key u t hg
    rw [(h.line key).holder, fairHolder_eq_some] at hg
    have hkept : keeper key ((start client).run moves).log ≠ none := by rw [hg]; exact nofun
    have hused := get?_of_used h (.inl hkept)
    rw [hg] at hused
    exact ⟨_, hused⟩
  case pool =>
    intro key hne
    obtain ⟨t, ht⟩ := List.exists_mem_of_ne_nil _ hne
    have hm := (ha.mem key t).2 ht
    have hperm := ha.perm key
    obtain ⟨p, hp, -⟩ := Store.exists_of_mem_ofPool hm
    unfold Store.callers at hperm
    rw [Store.ofPool_of_get? hp] at hperm
    exact ⟨p, hp, hperm⟩
  case empties =>
    intro hq hb hp
    have hfresh := sweep_eq_fresh h ha hq (fun name b hg => decide_eq_true (hb name b hg))
      fun key p hg => decide_eq_true (hp key p hg)
    refine ⟨hfresh, ?_⟩
    unfold Store.swept
    rw [hfresh]
    exact Nat.sub_zero _

/-- A pool outlives its lifetime while a call is suspended at it, and goes with that call. -/
example :
    let plan : PoolPlan := ⟨1, .ofMillis 50⟩
    let s := (start ⟨0⟩).run [.begin (.permits "k" plan ⟨1, .zero⟩),
      .begin (.permits "k" plan ⟨1, .ofMillis 500⟩)]
    s.store.swept 100_000_000 = 0 ∧ (s.step (.drop 1)).store.swept 100_000_000 = 1 := by
  decide

end Traffic

end Local

end Turnstile
