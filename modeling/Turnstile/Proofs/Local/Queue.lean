import Turnstile.Proofs.Local.Traffic

/-!
# Where the latches stand

The attempts that wait for a latch, in the order in which they came, are its queue. `Sound` says
that the log and the queues determine every latch and every entry of a holder: the keeper of a latch
holds it with the whole queue in line, and without a keeper it is handed to the head of the queue,
who is woken. What a step does to one latch is one of four things: it is taken by somebody new, it
is taken by the head of its queue, somebody leaves its queue, or its keeper lets go. All other
latches are `Apart` from the step.
-/

namespace Turnstile.Local

namespace Latch

open Traffic

/-- The latch of keeper `k` while `line` waits. -/
def under : Option Keeper → List Ticket → Latch
  | some (_, t), line => held t line
  | none, line => next line

variable {k : Option Keeper} {line : List Ticket} {t u : Ticket}

theorem under_eq_idle : under k line = idle ↔ k = none ∧ line = [] := by
  rcases k with _ | ⟨o, u⟩
  · cases line <;> simp [under, next]
  · simp [under]

theorem under_concat (h : under k line ≠ idle) :
    under k (line ++ [t]) = (under k line).enter t := by
  rcases k with _ | ⟨o, u⟩
  · cases line with
    | nil => exact absurd rfl h
    | cons v line => rfl
  · rfl

theorem holder?_under (h : (under k line).holder? = some t) :
    (∃ o, k = some (o, t)) ∨ k = none ∧ ∃ rest, line = t :: rest := by
  rcases k with _ | ⟨o, u⟩
  · cases line with
    | nil => cases h
    | cons v rest =>
      cases h
      exact .inr ⟨rfl, rest, rfl⟩
  · cases h
    exact .inl ⟨o, rfl⟩

theorem members_under (h : t ∈ (under k line).members) : (∃ o, k = some (o, t)) ∨ t ∈ line := by
  rcases k with _ | ⟨o, u⟩
  · cases line with
    | nil => cases h
    | cons v rest => exact .inr h
  · rcases List.mem_cons.1 h with rfl | h
    · exact .inl ⟨o, rfl⟩
    · exact .inr h

theorem leave_under (hk : ∀ o, k ≠ some (o, t)) (ht : t ∈ line) :
    ((under k line).leave t).1 = under k (line.erase t) := by
  rcases k with _ | ⟨o, u⟩
  · cases line with
    | nil => cases ht
    | cons v rest =>
      by_cases hv : v = t
      · subst hv
        simp [under, next, leave]
      · simp [under, next, leave, hv]
  · have hu : u ≠ t := by
      rintro rfl
      exact hk o rfl
    simp [under, leave, hu]

/-- Who comes to the head of the line because somebody left is told so. -/
theorem head?_erase (h : (line.erase t).head? = some u) :
    line.head? = some u ∧ u ≠ t ∨ ((next line).leave t).2 = some u := by
  cases line with
  | nil => cases h
  | cons v rest =>
    by_cases hv : v = t
    · subst hv
      right
      simpa [next, leave] using h
    · left
      simp only [List.erase_cons, beq_iff_eq, hv, if_false, List.head?_cons, Option.some.injEq] at h
      subst h
      exact ⟨rfl, hv⟩

end Latch

namespace Traffic

variable {s s' s₀ : Traffic} {name key : String} {t u : Ticket} {a : Attempt} {w : Waiting}
  {owner : Option Ulid} {log es : List Entry} {e : Entry} {k : Keeper}
  {waiting : Table Ticket (Attempt × Waiting)}

/-! ## Queues -/

def standing (name : String) (x : Ticket × Attempt × Waiting) : Option Ticket :=
  x.2.2.turn?.bind fun turn => if turn.1 = name then some x.1 else none

/-- The tickets that wait for a latch, oldest first. -/
def queue (waiting : Table Ticket (Attempt × Waiting)) (name : String) : List Ticket :=
  waiting.entries.filterMap (standing name)

theorem standing_eq_some {x : Attempt × Waiting} :
    standing name (u, x) = some t ↔ u = t ∧ ∃ o, x.2.turn? = some (name, o) := by
  unfold standing
  cases x.2.turn? with
  | none => simp
  | some turn =>
    obtain ⟨n, o⟩ := turn
    by_cases hn : n = name
    · simp [hn]
    · simp [hn]

theorem standing_eq_none {x : Attempt × Waiting} (h : ∀ o, x.2.turn? ≠ some (name, o)) :
    standing name (t, x) = none := by
  cases hs : standing name (t, x) with
  | none => rfl
  | some u =>
    obtain ⟨-, o, ho⟩ := standing_eq_some.1 hs
    exact absurd ho (h o)

theorem mem_queue :
    t ∈ queue waiting name ↔
      ∃ a w o, waiting.get? t = some (a, w) ∧ w.turn? = some (name, o) := by
  unfold queue
  rw [List.mem_filterMap]
  constructor
  · rintro ⟨⟨u, a, w⟩, hm, hs⟩
    obtain ⟨rfl, o, ho⟩ := standing_eq_some.1 hs
    exact ⟨a, w, o, Table.get?_eq_some_iff.2 hm, ho⟩
  · rintro ⟨a, w, o, hg, ho⟩
    exact ⟨_, Table.get?_eq_some_iff.1 hg, standing_eq_some.2 ⟨rfl, o, ho⟩⟩

theorem not_mem_queue (h : waiting.get? t = none) : t ∉ queue waiting name := by
  intro hm
  obtain ⟨a, w, o, hg, -⟩ := mem_queue.1 hm
  rw [h] at hg
  cases hg

theorem nodup_queue : (queue waiting name).Nodup := by
  have hs : (queue waiting name).Sublist (waiting.entries.map (·.1)) := by
    unfold queue
    generalize waiting.entries = l
    induction l with
    | nil => exact .refl _
    | cons x rest ih =>
      rw [List.filterMap_cons]
      split
      · exact ih.cons _
      · rename_i u hu
        obtain ⟨rfl, -⟩ := standing_eq_some.1 hu
        exact ih.cons_cons _
  exact waiting.distinct.sublist hs

theorem queue_insert {x : Attempt × Waiting}
    (h : standing name (t, x) = (waiting.get? t).bind fun y => standing name (t, y)) :
    queue (waiting.insert t x) name = queue waiting name := by
  cases hg : waiting.get? t with
  | none =>
    rw [hg] at h
    simp [queue, Table.entries_insert hg, h]
  | some y =>
    rw [hg] at h
    exact Table.filterMap_insert _ hg h

theorem queue_arrive (hg : waiting.get? t = none) (hw : w.turn? = some (name, owner)) :
    queue (waiting.insert t (a, w)) name = queue waiting name ++ [t] := by
  have hs : standing name (t, a, w) = some t := standing_eq_some.2 ⟨rfl, owner, hw⟩
  simp [queue, Table.entries_insert hg, hs]

theorem queue_erase : queue (waiting.erase t) name = (queue waiting name).erase t := by
  rw [nodup_queue.erase_eq_filter]
  show (waiting.entries.filter fun x => x.1 != t).filterMap (standing name) =
    (waiting.entries.filterMap (standing name)).filter (· != t)
  generalize waiting.entries = l
  induction l with
  | nil => rfl
  | cons x rest ih =>
    obtain ⟨u, y⟩ := x
    by_cases hu : u = t
    · subst hu
      cases hs : standing name (u, y) with
      | none => simpa [hs] using ih
      | some v =>
        obtain ⟨rfl, -⟩ := standing_eq_some.1 hs
        simpa [hs] using ih
    · cases hs : standing name (u, y) with
      | none => simpa [hs, hu] using ih
      | some v =>
        obtain ⟨rfl, -⟩ := standing_eq_some.1 hs
        simpa [hs, hu] using ih

theorem queue_erase_of_not_mem (h : t ∉ queue waiting name) :
    queue (waiting.erase t) name = queue waiting name := by
  rw [queue_erase, List.erase_of_not_mem h]

/-! ## Lawful logs -/

/-- The entry may follow the log. -/
def Fits (log : List Entry) : Entry → Prop
  | .unlocked key u done => done = true ↔ ∃ t, keeper key log = some (some u, t)
  | .freed key t => keeper (Store.lockName key) log = some (none, t)
  | .answered t a o => ∀ name k, (Entry.answered t a o).granted? = some (name, k) →
      keeper name log = none
  | _ => True

/-- A latch is granted while nobody keeps it, and let go by its keeper. -/
def Lawful (log : List Entry) : Prop := ∀ l₁ e l₂, log = l₁ ++ e :: l₂ → Fits l₁ e

theorem Lawful.nil : Lawful [] := by
  intro l₁ e l₂ h
  simp at h

theorem Lawful.concat (h : Lawful log) (he : Fits log e) : Lawful (log ++ [e]) := by
  intro l₁ e' l₂ hl
  rcases List.eq_nil_or_concat l₂ with rfl | ⟨l, e'', rfl⟩
  · obtain ⟨rfl, hc⟩ := List.append_inj' hl rfl
    cases hc
    exact he
  · rw [List.concat_eq_append, ← List.cons_append, ← List.append_assoc] at hl
    exact h _ _ _ (List.append_inj' hl rfl).1

theorem Lawful.of_append {l₁ l₂ : List Entry} (h : Lawful (l₁ ++ l₂)) : Lawful l₁ := by
  intro x e y hxy
  exact h x e (y ++ l₂) (by simp [hxy])

/-- The entry tells of no latch. -/
def Entry.IsQuiet : Entry → Prop
  | arrived _ _ => True
  | dropped _ => True
  | asked _ _ _ => True
  | _ => False

theorem Entry.IsQuiet.isAside (h : e.IsQuiet) : e.IsAside name := by
  cases e with
  | arrived => exact ⟨nofun, nofun⟩
  | dropped => exact ⟨nofun, nofun⟩
  | asked => exact ⟨nofun, nofun⟩
  | _ => cases h

theorem Lawful.append (h : Lawful log) (hq : ∀ e ∈ es, e.IsQuiet) : Lawful (log ++ es) := by
  induction es generalizing log with
  | nil => simpa using h
  | cons e rest ih =>
    have he : Fits log e := by
      have hq := hq e (by simp)
      cases e with
      | unlocked => cases hq
      | freed => cases hq
      | answered => cases hq
      | _ => trivial
    rw [← List.singleton_append, ← List.append_assoc]
    exact ih (h.concat he) fun e he => hq e (by simp [he])

theorem keeper_append (h : ∀ e ∈ es, e.IsAside name) :
    keeper name (log ++ es) = keeper name log := by
  induction es generalizing log with
  | nil => simp
  | cons e rest ih =>
    rw [← List.singleton_append, ← List.append_assoc, ih fun e he => h e (by simp [he]),
      keeper_concat, keep_of_isAside (h e (by simp))]

theorem granted_append (h : ∀ e ∈ es, e.IsAside name) :
    granted name (log ++ es) = granted name log := by
  unfold granted
  rw [List.filterMap_append, List.append_right_eq_self, List.filterMap_eq_nil_iff]
  intro e he
  cases hg : e.granted? with
  | none => rfl
  | some x =>
    have hn : x.1 ≠ name := by
      rintro rfl
      exact (h e he).granted _ hg
    simp [hn]

theorem granted_concat (h : e.granted? = some (name, k)) :
    granted name (log ++ [e]) = granted name log ++ [k.2] := by
  simp [granted, h]

/-! ## One latch -/

/-- The entry of the holder of a fair lock. -/
def fairHolder : Option Keeper → Option (Ulid × Ticket)
  | some (some u, t) => some (u, t)
  | _ => none

theorem fairHolder_eq_some {h : Option Keeper} {v : Ulid} :
    fairHolder h = some (v, t) ↔ h = some (some v, t) := by
  rcases h with _ | ⟨_ | v', t'⟩ <;> simp [fairHolder]

/-- One latch is where the log and its queue say. -/
structure InLine (s : Traffic) (name : String) : Prop where
  latch : s.store.latch name = .under (keeper name s.log) (queue s.waiting name)
  holder : s.store.holders.get? name = fairHolder (keeper name s.log)
  handed : keeper name s.log = none → ∀ t, (queue s.waiting name).head? = some t → t ∈ s.woken
  order : (granted name s.log ++ queue s.waiting name).Sublist (arrived name s.log)
  gone : ∀ o t, keeper name s.log = some (o, t) → t < s.tickets ∧ s.waiting.get? t = none

/-- What a step keeps of a latch that it has nothing to do with. -/
structure Apart (name : String) (s s' : Traffic) : Prop where
  latch : s'.store.latch name = s.store.latch name
  holder : s'.store.holders.get? name = s.store.holders.get? name
  queued : queue s'.waiting name = queue s.waiting name
  log : ∃ es, s'.log = s.log ++ es ∧ ∀ e ∈ es, e.IsAside name
  woken : ∀ t ∈ s.woken, (s.store.latch name).holder? = some t → t ∈ s'.woken
  tickets : s.tickets ≤ s'.tickets
  gone : ∀ t < s.tickets, s.waiting.get? t = none → s'.waiting.get? t = none

theorem InLine.of_apart (h : InLine s name) (ha : Apart name s s') : InLine s' name := by
  obtain ⟨es, hlog, hes⟩ := ha.log
  have hk : keeper name s'.log = keeper name s.log := by rw [hlog, keeper_append hes]
  refine ⟨?latch, ?holder, ?handed, ?order, ?gone⟩
  case latch =>
    rw [ha.latch, hk, ha.queued]
    exact h.latch
  case holder =>
    rw [ha.holder, hk]
    exact h.holder
  case handed =>
    intro hn t ht
    rw [hk] at hn
    rw [ha.queued] at ht
    refine ha.woken t (h.handed hn t ht) ?_
    rw [h.latch, hn]
    cases hq : queue s.waiting name with
    | nil => rw [hq] at ht; cases ht
    | cons v rest => rw [hq] at ht; exact ht
  case order =>
    rw [hlog, granted_append hes, ha.queued]
    refine h.order.trans ?_
    unfold arrived
    rw [List.filterMap_append]
    exact List.sublist_append_left ..
  case gone =>
    intro o t ht
    rw [hk] at ht
    obtain ⟨hlt, hg⟩ := h.gone o t ht
    exact ⟨Nat.lt_of_lt_of_le hlt ha.tickets, ha.gone t hlt hg⟩

theorem Apart.of_store (hl : s'.store.latch = s.store.latch)
    (hh : s'.store.holders = s.store.holders) (hw : s'.waiting = s.waiting)
    (hlog : ∃ es, s'.log = s.log ++ es ∧ ∀ e ∈ es, e.IsAside name)
    (hwoken : ∀ t ∈ s.woken, t ∈ s'.woken) (ht : s.tickets = s'.tickets) : Apart name s s' where
  latch := congrFun hl name
  holder := by rw [hh]
  queued := by rw [hw]
  log := hlog
  woken t h _ := hwoken t h
  tickets := Nat.le_of_eq ht
  gone t _ h := by rw [hw, h]

/-! ## The four turns of a latch -/

namespace InLine

theorem members (h : InLine s name) (ht : t ∈ (s.store.latch name).members) :
    (∃ o, keeper name s.log = some (o, t)) ∨ t ∈ queue s.waiting name := by
  rw [h.latch] at ht
  exact Latch.members_under ht

theorem not_keeper (h : InLine s name) (hg : s.waiting.get? t = some (a, w)) :
    ∀ o, keeper name s.log ≠ some (o, t) := by
  intro o hk
  have hn := (h.gone o t hk).2
  rw [hg] at hn
  cases hn

/-- Whoever waits and holds the latch is first in line. -/
theorem head (h : InLine s name) (hg : s.waiting.get? t = some (a, w))
    (ht : (s.store.latch name).holder? = some t) :
    keeper name s.log = none ∧ ∃ rest, queue s.waiting name = t :: rest := by
  rw [h.latch] at ht
  rcases Latch.holder?_under ht with ⟨o, hk⟩ | hq
  · exact absurd hk (h.not_keeper hg o)
  · exact hq

theorem take (h : InLine s name) (hi : s.store.latch name = .idle)
    (ha : a.turn? = some (name, owner)) (hl : s'.store.latch name = .held t [])
    (hh : s'.store.holders.get? name = fairHolder (some (owner, t)))
    (hw : s'.waiting = s.waiting.erase t)
    (hlog : s'.log = s.log ++ [.arrived t a] ++ [.answered t a (.ok (some t))])
    (hlt : t < s'.tickets) : InLine s' name := by
  have hq : queue s'.waiting name = [] := by
    rw [h.latch, Latch.under_eq_idle] at hi
    rw [hw, queue_erase, hi.2]
    rfl
  have hg : (Entry.answered t a (.ok (some t))).granted? = some (name, owner, t) := by
    simp [Entry.granted?, ha]
  have hk : keeper name s'.log = some (owner, t) := by
    rw [hlog, keeper_concat, keep_of_granted hg]
  have hord : (granted name s.log).Sublist (arrived name s.log) :=
    (List.sublist_append_left ..).trans h.order
  refine ⟨?latch, ?holder, ?handed, ?order, ?gone⟩
  case latch =>
    rw [hk, hq]
    exact hl
  case holder =>
    rw [hk]
    exact hh
  case handed =>
    intro hn
    rw [hk] at hn
    cases hn
  case order =>
    have ha' : arrived name s'.log = arrived name s.log ++ [t] := by
      simp [hlog, arrived, Entry.arrived?, ha]
    have hg' : granted name s'.log = granted name s.log ++ [t] := by
      rw [hlog, granted_concat hg, granted_append]
      intro e he
      rw [List.mem_singleton.1 he]
      exact Entry.IsQuiet.isAside trivial
    rw [ha', hg', hq, List.append_nil]
    exact hord.append_right _
  case gone =>
    intro o u hu
    rw [hk] at hu
    cases hu
    refine ⟨hlt, ?_⟩
    rw [hw, Table.get?_erase, if_pos rfl]

theorem join (h : InLine s name) (hi : s.store.latch name ≠ .idle)
    (ht : s.waiting.get? t = none) (ha : a.turn? = some (name, owner))
    (hwt : w.turn? = some (name, owner))
    (hl : s'.store.latch name = (s.store.latch name).enter t)
    (hh : s'.store.holders = s.store.holders) (hw : s'.waiting = s.waiting.insert t (a, w))
    (hlog : s'.log = s.log ++ [.arrived t a]) (hwoken : s'.woken = s.woken)
    (hlt : s.tickets ≤ t) (hle : s.tickets ≤ s'.tickets) : InLine s' name := by
  have hq : queue s'.waiting name = queue s.waiting name ++ [t] := by
    rw [hw, queue_arrive ht hwt]
  have hes : ∀ e ∈ [Entry.arrived t a], e.IsAside name := by
    intro e he
    rw [List.mem_singleton.1 he]
    exact Entry.IsQuiet.isAside trivial
  have hk : keeper name s'.log = keeper name s.log := by
    rw [hlog, keeper_append hes]
  refine ⟨?latch, ?holder, ?handed, ?order, ?gone⟩
  case latch =>
    rw [hl, hk, hq, h.latch, Latch.under_concat]
    rwa [← h.latch]
  case holder =>
    rw [hh, hk]
    exact h.holder
  case handed =>
    intro hn u hu
    rw [hk] at hn
    -- Without a keeper the latch is not idle because somebody waits already.
    cases hc : queue s.waiting name with
    | nil =>
      refine absurd ?_ hi
      rw [h.latch, hn, hc]
      rfl
    | cons v rest =>
      rw [hq, hc] at hu
      rw [hwoken]
      refine h.handed hn u ?_
      rw [hc]
      exact hu
  case order =>
    have ha' : arrived name s'.log = arrived name s.log ++ [t] := by
      simp [hlog, arrived, Entry.arrived?, ha]
    rw [ha', hlog, granted_append hes, hq, ← List.append_assoc]
    exact h.order.append_right _
  case gone =>
    intro o u hu
    rw [hk] at hu
    obtain ⟨hut, hg⟩ := h.gone o u hu
    refine ⟨Nat.lt_of_lt_of_le hut hle, ?_⟩
    rw [hw, Table.get?_insert, if_neg (Nat.ne_of_lt (Nat.lt_of_lt_of_le hut hlt))]
    exact hg

theorem turn (h : InLine s name) (hg : s.waiting.get? t = some (a, w))
    (ha : a.turn? = some (name, owner)) (ht : (s.store.latch name).holder? = some t)
    (hlt : t < s'.tickets) (hl : s'.store.latch name = s.store.latch name)
    (hh : s'.store.holders.get? name = fairHolder (some (owner, t)))
    (hw : s'.waiting = s.waiting.erase t)
    (hlog : s'.log = s.log ++ [.answered t a (.ok (some t))]) : InLine s' name := by
  obtain ⟨hn, rest, hrest⟩ := h.head hg ht
  have hq : queue s'.waiting name = rest := by
    rw [hw, queue_erase, hrest, List.erase_cons_head]
  have hgr : (Entry.answered t a (.ok (some t))).granted? = some (name, owner, t) := by
    simp [Entry.granted?, ha]
  have hk : keeper name s'.log = some (owner, t) := by
    rw [hlog, keeper_concat, keep_of_granted hgr]
  refine ⟨?latch, ?holder, ?handed, ?order, ?gone⟩
  case latch =>
    rw [hl, h.latch, hk, hq, hn, hrest]
    rfl
  case holder =>
    rw [hk]
    exact hh
  case handed =>
    intro hn
    rw [hk] at hn
    cases hn
  case order =>
    have ha' : arrived name s'.log = arrived name s.log := by
      simp [hlog, arrived, Entry.arrived?]
    have ho := h.order
    rw [hrest] at ho
    rw [ha', hlog, granted_concat hgr, hq, List.append_assoc]
    exact ho
  case gone =>
    intro o u hu
    rw [hk] at hu
    cases hu
    refine ⟨hlt, ?_⟩
    rw [hw, Table.get?_erase, if_pos rfl]

theorem quit (h : InLine s name) (hg : s.waiting.get? t = some (a, w))
    (hwt : w.turn? = some (name, owner))
    (hl : s'.store.latch name = ((s.store.latch name).leave t).1)
    (hh : s'.store.holders = s.store.holders) (hw : s'.waiting = s.waiting.erase t)
    (hlog : s'.log = s.log ++ [e]) (he : e.IsAside name)
    (hwoken : s'.woken = s.woken.filter (· ≠ t) ++ ((s.store.latch name).leave t).2.toList)
    (hle : s.tickets ≤ s'.tickets) : InLine s' name := by
  have ht : t ∈ queue s.waiting name := mem_queue.2 ⟨a, w, owner, hg, hwt⟩
  have hq : queue s'.waiting name = (queue s.waiting name).erase t := by
    rw [hw, queue_erase]
  have hes : ∀ e' ∈ [e], e'.IsAside name := by
    intro e' he'
    rw [List.mem_singleton.1 he']
    exact he
  have hk : keeper name s'.log = keeper name s.log := by
    rw [hlog, keeper_append hes]
  refine ⟨?latch, ?holder, ?handed, ?order, ?gone⟩
  case latch => rw [hl, h.latch, hk, hq, Latch.leave_under (h.not_keeper hg) ht]
  case holder =>
    rw [hh, hk]
    exact h.holder
  case handed =>
    intro hn u hu
    rw [hk] at hn
    rw [hq] at hu
    rw [hwoken]
    rcases Latch.head?_erase hu with ⟨hhead, hne⟩ | hhead
    · refine List.mem_append_left _ (List.mem_filter.2 ⟨h.handed hn u hhead, ?_⟩)
      simpa using hne
    · refine List.mem_append_right _ ?_
      have hlatch : s.store.latch name = .next (queue s.waiting name) := by
        rw [h.latch, hn]
        rfl
      rw [hlatch, hhead]
      exact List.mem_singleton.2 rfl
  case order =>
    have ha : (arrived name s.log).Sublist (arrived name s'.log) := by
      rw [hlog]
      unfold arrived
      rw [List.filterMap_append]
      exact List.sublist_append_left ..
    rw [hlog, granted_append hes, hq, ← hlog]
    exact ((List.erase_sublist.append_left _).trans h.order).trans ha
  case gone =>
    intro o u hu
    rw [hk] at hu
    obtain ⟨hut, hgu⟩ := h.gone o u hu
    refine ⟨Nat.lt_of_lt_of_le hut hle, ?_⟩
    rw [hw, Table.get?_erase]
    split
    · rfl
    · exact hgu

theorem release (h : InLine s name) (hk : keeper name s.log = some (owner, t))
    (hl : s'.store.latch name = ((s.store.latch name).leave t).1)
    (hh : s'.store.holders.get? name = none) (hw : s'.waiting = s.waiting)
    (hlog : s'.log = s.log ++ [e]) (he : e.letsGo? = some name)
    (hwoken : s'.woken = s.woken ++ ((s.store.latch name).leave t).2.toList) :
    InLine s' name := by
  have hlatch : s.store.latch name = .held t (queue s.waiting name) := by
    rw [h.latch, hk]
    rfl
  have hk' : keeper name s'.log = none := by
    rw [hlog, keeper_concat, keep_of_letsGo he]
  refine ⟨?latch, ?holder, ?handed, ?order, ?gone⟩
  case latch =>
    rw [hl, hlatch, hk', hw]
    simp [Latch.leave, Latch.under]
  case holder =>
    rw [hh, hk']
    rfl
  case handed =>
    intro _ u hu
    rw [hw] at hu
    rw [hwoken, hlatch]
    refine List.mem_append_right _ ?_
    simp [Latch.leave, hu]
  case order =>
    have hes : granted name s'.log = granted name s.log := by
      have hg : e.granted? = none := by
        cases e with
        | answered => cases he
        | _ => rfl
      simp [hlog, granted, hg]
    have ha : arrived name s'.log = arrived name s.log := by
      have hg : e.arrived? = none := by
        cases e with
        | arrived => cases he
        | _ => rfl
      simp [hlog, arrived, hg]
    rw [hes, ha, hw]
    exact h.order
  case gone =>
    intro o u hu
    rw [hk'] at hu
    cases hu

end InLine

end Traffic

end Turnstile.Local
