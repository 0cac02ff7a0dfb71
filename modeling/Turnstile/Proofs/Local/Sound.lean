import Turnstile.Proofs.Local.Queue

/-!
# Every run keeps the latches in line

One lemma per move, and `run_sound` for all runs.
-/

namespace Turnstile.Local

namespace Store

variable {s : Store} {t : Ticket} {name name' : String} {owner : Option Ulid}

theorem holders_grantLatch (h : s.holders.get? name = none) :
    (s.grantLatch t name owner).holders.get? name = Traffic.fairHolder (some (owner, t)) := by
  cases owner with
  | none => exact h
  | some u =>
    show (s.holders.insert name (u, t)).get? name = some (u, t)
    rw [Table.get?_insert, if_pos rfl]

theorem holders_grantLatch_of_ne (h : name' ≠ name) :
    (s.grantLatch t name owner).holders.get? name' = s.holders.get? name' := by
  cases owner with
  | none => rfl
  | some u =>
    show (s.holders.insert name (u, t)).get? name' = _
    rw [Table.get?_insert, if_neg h]

end Store

namespace Traffic

variable {s s' s₀ : Traffic} {name key : String} {t : Ticket} {a : Attempt} {w : Waiting}
  {owner : Option Ulid} {e : Entry} {p : Progress}

structure Sound (s : Traffic) : Prop where
  fresh : ∀ t x, s.waiting.get? t = some x → t < s.tickets
  turns : ∀ t a w, s.waiting.get? t = some (a, w) → w.turn? = a.turn?
  /-- Tickets are numbered as they arrive. -/
  arrivals : ∀ name, (arrived name s.log ++ [s.tickets]).Pairwise (· < ·)
  lawful : Lawful s.log
  line : ∀ name, InLine s name

namespace Sound

theorem start (client : Ulid) : Sound (start client) where
  fresh t x h := by cases h
  turns t a w h := by cases h
  arrivals name := List.pairwise_singleton ..
  lawful := .nil
  line name := ⟨rfl, rfl, nofun, .refl _, nofun⟩

theorem get?_tickets (h : Sound s) : s.waiting.get? s.tickets = none := by
  cases hg : s.waiting.get? s.tickets with
  | none => rfl
  | some x => exact absurd (h.fresh _ x hg) (Nat.lt_irrefl _)

theorem not_member (h : Sound s) : s.tickets ∉ (s.store.latch name).members := by
  intro hm
  rcases (h.line name).members hm with ⟨o, hk⟩ | hq
  · exact absurd ((h.line name).gone o _ hk).1 (Nat.lt_irrefl _)
  · exact not_mem_queue h.get?_tickets hq

theorem not_holder (h : Sound s) (hg : s.waiting.get? t = some (a, w))
    (hw : ∀ o, w.turn? ≠ some (name, o)) : (s.store.latch name).holder? ≠ some t := by
  intro ht
  obtain ⟨-, rest, hq⟩ := (h.line name).head hg ht
  have hm : t ∈ queue s.waiting name := by
    rw [hq]
    exact List.mem_cons_self ..
  obtain ⟨a', w', o, hg', ho⟩ := mem_queue.1 hm
  rw [hg] at hg'
  cases hg'
  exact hw o ho

/-- Nobody new comes in a step that grants, drops or lets go. -/
theorem of_line (h : Sound s) (ht : s'.tickets = s.tickets)
    (hw : ∀ t a w, s'.waiting.get? t = some (a, w) →
      ∃ w₀, s.waiting.get? t = some (a, w₀) ∧ w.turn? = w₀.turn?)
    (hlog : ∀ name, arrived name s'.log = arrived name s.log) (hl : Lawful s'.log)
    (hline : ∀ name, InLine s' name) : Sound s' where
  fresh t x hg := by
    obtain ⟨a, w⟩ := x
    obtain ⟨w₀, hg₀, -⟩ := hw t a w hg
    rw [ht]
    exact h.fresh t _ hg₀
  turns t a w hg := by
    obtain ⟨w₀, hg₀, he⟩ := hw t a w hg
    rw [he]
    exact h.turns t a w₀ hg₀
  arrivals name := by
    rw [hlog, ht]
    exact h.arrivals name
  lawful := hl
  line := hline

end Sound

/-! ## What an answer does to the other latches -/

theorem isAside_answered {o : Outcome}
    (h : (∀ g, o ≠ .ok (some g)) ∨ ∀ owner, a.turn? ≠ some (name, owner)) :
    (Entry.answered t a o).IsAside name := by
  refine ⟨fun k hk => ?_, nofun⟩
  unfold Entry.granted? at hk
  split at hk
  · rename_i t' a' g heq
    cases heq
    rcases h with h | h
    · exact h g rfl
    · rw [Option.map_eq_some_iff] at hk
      obtain ⟨⟨n, owner⟩, hx, hk⟩ := hk
      cases hk
      exact h owner hx
  · cases hk

theorem Apart.answer {o : Outcome} (h : Apart name s s₀) (hq : t ∉ queue s₀.waiting name)
    (ho : (Entry.answered t a o).IsAside name) : Apart name s (s₀.settle t a (.done o)) := by
  obtain ⟨es, hlog, hes⟩ := h.log
  refine ⟨h.latch, h.holder, ?_, ⟨es ++ [.answered t a o], ?_, ?_⟩, h.woken, h.tickets, ?_⟩
  · exact (queue_erase_of_not_mem hq).trans h.queued
  · rw [← List.append_assoc, ← hlog]
    rfl
  · intro e he
    rcases List.mem_append.1 he with he | he
    · exact hes e he
    · rw [List.mem_singleton.1 he]
      exact ho
  · intro u hu hn
    show (s₀.waiting.erase t).get? u = none
    rw [Table.get?_erase]
    split
    · rfl
    · exact h.gone u hu hn

theorem Apart.wait (h : Apart name s s₀) (ht : s.tickets ≤ t ∨ s.waiting.get? t ≠ none)
    (hw : standing name (t, a, w) = (s₀.waiting.get? t).bind fun x => standing name (t, x)) :
    Apart name s (s₀.settle t a (.waiting w)) := by
  refine ⟨h.latch, h.holder, (queue_insert hw).trans h.queued, h.log, h.woken, h.tickets, ?_⟩
  intro u hu hn
  show (s₀.waiting.insert t (a, w)).get? u = none
  have hne : u ≠ t := by
    rintro rfl
    rcases ht with ht | ht
    · exact absurd hu (Nat.not_lt.2 ht)
    · exact ht hn
  rw [Table.get?_insert, if_neg hne]
  exact h.gone u hu hn

theorem Apart.settle (h : Apart name s s₀) (hq : t ∉ queue s₀.waiting name)
    (ht : s.tickets ≤ t ∨ s.waiting.get? t ≠ none)
    (hp : ∀ o, p = .done o → (Entry.answered t a o).IsAside name)
    (hw : ∀ w, p = .waiting w → ∀ o, w.turn? ≠ some (name, o)) :
    Apart name s (s₀.settle t a p) := by
  cases p with
  | done o => exact h.answer hq (hp o rfl)
  | waiting w =>
    refine h.wait ht ?_
    rw [standing_eq_none (hw w rfl)]
    cases hg : s₀.waiting.get? t with
    | none => rfl
    | some x =>
      refine (standing_eq_none fun o ho => hq ?_).symm
      exact mem_queue.2 ⟨x.1, x.2, o, hg, ho⟩

theorem arrived_append_of_none {log es : List Entry} (h : ∀ e ∈ es, e.arrived? = none) :
    arrived name (log ++ es) = arrived name log := by
  unfold arrived
  rw [List.filterMap_append, List.append_right_eq_self, List.filterMap_eq_nil_iff]
  intro e he
  rw [h e he]
  rfl

theorem isQuiet_firstAsk (he : e ∈ s.firstAsk a) : e.IsQuiet ∧ e.arrived? = none := by
  unfold firstAsk at he
  cases a with
  | permits key plan demand =>
    dsimp only at he
    split at he
    · rw [List.mem_singleton.1 he]
      exact ⟨trivial, rfl⟩
    · cases he
  | _ => cases he

theorem isQuiet_nextAsk (he : e ∈ s.nextAsk t w) : e.IsQuiet ∧ e.arrived? = none := by
  unfold nextAsk at he
  cases w with
  | permits key plan n deadline =>
    dsimp only at he
    split at he
    · split at he
      · rw [List.mem_singleton.1 he]
        exact ⟨trivial, rfl⟩
      · cases he
    · cases he
  | _ => cases he

theorem apart_arrive {st : Store} (hl : st.latch name = s.store.latch name)
    (hh : st.holders.get? name = s.store.holders.get? name) : Apart name s (s.arrive a st) := by
  refine ⟨hl, hh, rfl, ⟨_, rfl, ?_⟩, fun u hu _ => hu, Nat.le_succ _, fun u _ hu => hu⟩
  intro e he
  rcases List.mem_cons.1 he with rfl | he
  · exact Entry.IsQuiet.isAside trivial
  · exact (isQuiet_firstAsk he).1.isAside

theorem apart_visit {st : Store} {woken : List Ticket} (hl : st.latch name = s.store.latch name)
    (hh : st.holders.get? name = s.store.holders.get? name)
    (ht : (s.store.latch name).holder? ≠ some t) : Apart name s (s.visit t w st woken) := by
  refine ⟨hl, hh, rfl, ⟨_, rfl, ?_⟩, fun u hu hn => ?_, Nat.le_refl _, fun u _ hu => hu⟩
  · intro e he
    exact (isQuiet_nextAsk he).1.isAside
  · refine List.mem_append_left _ (List.mem_filter.2 ⟨hu, ?_⟩)
    have hne : u ≠ t := by
      rintro rfl
      exact ht hn
    simpa using hne

theorem fits_answered {log : List Entry} {o : Outcome}
    (h : ∀ name owner g, a.turn? = some (name, owner) → o = .ok (some g) →
      keeper name log = none) : Fits log (.answered t a o) := by
  intro name k hk
  unfold Entry.granted? at hk
  split at hk
  · rename_i t' a' g heq
    cases heq
    rw [Option.map_eq_some_iff] at hk
    obtain ⟨⟨n, owner⟩, hx, hk⟩ := hk
    cases hk
    exact h n owner g hx rfl
  · cases hk

namespace Sound

/-! ## Attempts begin -/

theorem begin_line (h : Sound s) (a : Attempt) : InLine (s.begin a) name := by
  have hnew : s.waiting.get? s.tickets = none := h.get?_tickets
  have hq : s.tickets ∉ queue s.waiting name := not_mem_queue hnew
  cases ha : a.turn? with
  | none =>
    obtain ⟨hb, hw⟩ := @Store.begin_beside s.store s.tickets s.now a ha
    refine (h.line name).of_apart (Apart.settle ?_ hq (.inl (Nat.le_refl _)) ?_ ?_)
    · exact apart_arrive (congrFun hb.latch name) (by rw [hb.holders])
    · intro o _
      exact isAside_answered (.inr fun owner => by simp [ha])
    · intro w hp o
      simp [hw w hp]
  | some turn =>
    obtain ⟨n, owner⟩ := turn
    have hb := @Store.begin_begun s.store s.tickets s.now n owner a ha h.not_member
    have hask : s.firstAsk a = [] := by
      cases a with
      | permits => cases ha
      | _ => rfl
    unfold begin
    generalize s.store.begin s.tickets s.now a = r at hb
    cases hb with
    | refused st o ho hl hh =>
      refine (h.line name).of_apart (Apart.settle ?_ hq (.inl (Nat.le_refl _)) ?_ nofun)
      · exact apart_arrive (congrFun hl name) (by rw [hh])
      · rintro o' ⟨⟩
        exact isAside_answered (.inl ho)
    | granted st hi hl hh =>
      by_cases hn : name = n
      · subst hn
        have hfree : s.store.holders.get? name = none := by
          rw [h.line name |>.latch, Latch.under_eq_idle] at hi
          rw [(h.line name).holder, hi.1]
          rfl
        refine (h.line name).take hi ha ?_ ?_ rfl ?_ (Nat.lt_succ_self _)
        · show st.latch name = _
          rw [hl, Function.update_self]
        · show st.holders.get? name = _
          rw [hh, Store.holders_grantLatch hfree]
        · show s.log ++ Entry.arrived s.tickets a :: s.firstAsk a ++ _ = _
          rw [hask]
      · refine (h.line name).of_apart (Apart.settle ?_ hq (.inl (Nat.le_refl _)) ?_ nofun)
        · refine apart_arrive ?_ ?_
          · rw [hl, Function.update_of_ne hn]
          · rw [hh, Store.holders_grantLatch_of_ne hn]
        · intro o _
          refine isAside_answered (.inr fun owner' he => hn ?_)
          rw [ha] at he
          cases he
          rfl
    | waits st deadline hi hl hh =>
      by_cases hn : name = n
      · subst hn
        refine (h.line name).join hi hnew ha rfl ?_ hh rfl ?_ rfl (Nat.le_refl _) (Nat.le_succ _)
        · show st.latch name = _
          rw [hl, Function.update_self]
        · show s.log ++ Entry.arrived s.tickets a :: s.firstAsk a = _
          rw [hask]
      · refine (h.line name).of_apart (Apart.settle ?_ hq (.inl (Nat.le_refl _)) nofun ?_)
        · exact apart_arrive (by rw [hl, Function.update_of_ne hn]) (by rw [hh])
        · rintro w ⟨⟩ o he
          cases he
          exact hn rfl

/-- A grant at the first look finds the latch without a keeper. -/
theorem begin_lawful (h : Sound s) (a : Attempt) : Lawful (s.begin a).log := by
  have harr : Lawful (s.log ++ Entry.arrived s.tickets a :: s.firstAsk a) := by
    refine h.lawful.append fun e he => ?_
    rcases List.mem_cons.1 he with rfl | he
    · trivial
    · exact (isQuiet_firstAsk he).1
  show Lawful ((s.arrive a (s.store.begin s.tickets s.now a).1).settle s.tickets a
    (s.store.begin s.tickets s.now a).2).log
  cases hp : (s.store.begin s.tickets s.now a).2 with
  | waiting w => exact harr
  | done o =>
    refine harr.concat (fits_answered fun n owner g ha ho => ?_)
    subst ho
    rw [keeper_append (fun e he => ?_)]
    · have hb := @Store.begin_begun s.store s.tickets s.now n owner a ha h.not_member
      generalize s.store.begin s.tickets s.now a = r at hb hp
      cases hb with
      | refused st o ho => cases hp; exact absurd rfl (ho g)
      | waits => cases hp
      | granted st hi =>
        rw [(h.line n).latch, Latch.under_eq_idle] at hi
        exact hi.1
    · rcases List.mem_cons.1 he with rfl | he
      · exact Entry.IsQuiet.isAside trivial
      · exact (isQuiet_firstAsk he).1.isAside

theorem begin_waiting (h : Sound s) {a' : Attempt}
    (hg : (s.begin a).waiting.get? t = some (a', w)) :
    s.waiting.get? t = some (a', w) ∨ t = s.tickets ∧ a' = a ∧ w.turn? = a.turn? := by
  rcases settle_get? hg with hg | ⟨ht, ha, hp⟩
  · exact .inl hg
  · refine .inr ⟨ht, ha, ?_⟩
    cases ha : a.turn? with
    | none => exact (Store.begin_beside ha).2 _ hp
    | some turn =>
      have hb := @Store.begin_begun s.store s.tickets s.now turn.1 turn.2 a ha h.not_member
      generalize s.store.begin s.tickets s.now a = r at hb hp
      cases hb with
      | refused => cases hp
      | granted => cases hp
      | waits => cases hp; rfl

theorem begin_arrived (s : Traffic) (a : Attempt) :
    arrived name (s.begin a).log =
      arrived name s.log ++ arrived name [Entry.arrived s.tickets a] := by
  have harr : ∀ es, (∀ e ∈ es, e.arrived? = none) →
      arrived name (s.log ++ [Entry.arrived s.tickets a] ++ es) =
        arrived name s.log ++ arrived name [Entry.arrived s.tickets a] := by
    intro es hes
    rw [arrived_append_of_none hes]
    simp [arrived]
  show arrived name ((s.arrive a (s.store.begin s.tickets s.now a).1).settle s.tickets a
    (s.store.begin s.tickets s.now a).2).log = _
  cases (s.store.begin s.tickets s.now a).2 with
  | waiting w =>
    show arrived name (s.log ++ Entry.arrived s.tickets a :: s.firstAsk a) = _
    rw [List.append_cons]
    exact harr _ fun e he => (isQuiet_firstAsk he).2
  | done o =>
    show arrived name (s.log ++ Entry.arrived s.tickets a :: s.firstAsk a ++ [_]) = _
    rw [List.append_cons s.log, List.append_assoc _ (s.firstAsk a)]
    refine harr _ fun e he => ?_
    rcases List.mem_append.1 he with he | he
    · exact (isQuiet_firstAsk he).2
    · rw [List.mem_singleton.1 he]
      rfl

theorem begin_tickets (s : Traffic) (a : Attempt) : (s.begin a).tickets = s.tickets + 1 :=
  settle_tickets ..

theorem begin (h : Sound s) (a : Attempt) : Sound (s.begin a) where
  fresh t x hg := by
    rw [begin_tickets]
    rcases h.begin_waiting hg with hg | ⟨rfl, -⟩
    · exact Nat.lt_succ_of_lt (h.fresh t _ hg)
    · exact Nat.lt_succ_self _
  turns t a' w hg := by
    rcases h.begin_waiting hg with hg | ⟨-, rfl, hw⟩
    · exact h.turns t a' w hg
    · exact hw
  arrivals name := by
    have hone : (arrived name [Entry.arrived s.tickets a]).Sublist [s.tickets] := by
      simp only [arrived, Entry.arrived?, List.filterMap_cons, List.filterMap_nil]
      split
      · exact List.nil_sublist _
      · rename_i t ht
        rw [Option.bind_eq_some_iff] at ht
        obtain ⟨x, hx, ht⟩ := ht
        rw [Option.map_eq_some_iff] at hx
        obtain ⟨turn, -, rfl⟩ := hx
        split at ht
        · cases ht
          exact .refl _
        · cases ht
    have hs := h.arrivals name
    have hnext : (arrived name s.log ++ [s.tickets] ++ [s.tickets + 1]).Pairwise (· < ·) := by
      rw [List.pairwise_append]
      refine ⟨hs, List.pairwise_singleton .., fun t ht u hu => ?_⟩
      rw [List.mem_singleton.1 hu]
      rcases List.mem_append.1 ht with ht | ht
      · exact Nat.lt_succ_of_lt ((List.pairwise_append.1 hs).2.2 t ht _ (by simp))
      · rw [List.mem_singleton.1 ht]
        exact Nat.lt_succ_self _
    rw [begin_arrived, begin_tickets]
    exact hnext.sublist ((hone.append_left _).append_right _)
  lawful := h.begin_lawful a
  line _ := h.begin_line a

/-! ## Attempts look again or are dropped -/

theorem look_line (h : Sound s) (hg : s.waiting.get? t = some (a, w)) :
    InLine (s.look t a w) name := by
  have hin : s.tickets ≤ t ∨ s.waiting.get? t ≠ none := .inr (by simp [hg])
  have haw : w.turn? = a.turn? := h.turns t a w hg
  cases hw : w.turn? with
  | none =>
    have hapart : ∀ o, w.turn? ≠ some (name, o) := by simp [hw]
    obtain ⟨hb, hw'⟩ := @Store.resume_beside s.store t s.now w hw
    refine (h.line name).of_apart (Apart.settle ?_ ?_ hin ?_ ?_)
    · exact apart_visit (congrFun hb.latch name) (by rw [hb.holders]) (h.not_holder hg hapart)
    · intro hm
      obtain ⟨a', w', o, hg', ho⟩ := mem_queue.1 hm
      cases hg.symm.trans hg'
      exact hapart o ho
    · intro o _
      exact isAside_answered (.inr fun owner => by rw [← haw]; exact hapart owner)
    · intro w' hp o
      simp [hw' w' hp]
  | some turn =>
    cases w with
    | token => cases hw
    | permits => cases hw
    | turn n owner deadline =>
      clear hw
      have ha : a.turn? = some (n, owner) := haw.symm
      -- The step leaves all latches but the one of name `n` alone.
      have hother : ∀ st woken p, name ≠ n → st.latch name = s.store.latch name →
          st.holders.get? name = s.store.holders.get? name →
          (∀ w', p = .waiting w' → w'.turn? = some (n, owner)) →
          InLine ((s.visit t (.turn n owner deadline) st woken).settle t a p) name := by
        intro st woken p hn hl hh hp
        have hapart : ∀ o, (Waiting.turn n owner deadline).turn? ≠ some (name, o) := by
          rintro o ⟨⟩
          exact hn rfl
        refine (h.line name).of_apart (Apart.settle ?_ ?_ hin ?_ ?_)
        · exact apart_visit hl hh (h.not_holder hg hapart)
        · intro hm
          obtain ⟨a', w', o, hg', ho⟩ := mem_queue.1 hm
          cases hg.symm.trans hg'
          exact hapart o ho
        · intro o _
          refine isAside_answered (.inr fun owner' he => hn ?_)
          cases ha.symm.trans he
          rfl
        · intro w' hw' o he
          cases (hp w' hw').symm.trans he
          exact hn rfl
      have hr := @Store.resume_resumed s.store t s.now n owner deadline
      unfold look
      generalize s.store.resume t s.now (.turn n owner deadline) = r at hr
      cases hr with
      | granted st ht hl hh =>
        by_cases hn : name = n
        · subst hn
          obtain ⟨hk, -⟩ := (h.line name).head hg ht
          have hfree : s.store.holders.get? name = none := by
            rw [(h.line name).holder, hk]
            rfl
          refine (h.line name).turn hg ha ht (h.fresh t _ hg) (congrFun hl name) ?_ rfl ?_
          · show st.holders.get? name = _
            rw [hh, Store.holders_grantLatch hfree]
          · show s.log ++ [] ++ _ = _
            rw [List.append_nil]
        · exact hother _ _ _ hn (congrFun hl name)
            (by rw [hh, Store.holders_grantLatch_of_ne hn]) (by simp)
      | quits st woken ht hl hh hwoken =>
        by_cases hn : name = n
        · subst hn
          refine (h.line name).quit hg rfl ?_ hh rfl (e := .answered t a (.ok none)) ?_ ?_ ?_
            (Nat.le_refl _)
          · show st.latch name = _
            rw [hl, Function.update_self]
          · show s.log ++ [] ++ _ = _
            rw [List.append_nil]
          · exact isAside_answered (.inl (by simp))
          · show _ ++ woken = _
            rw [hwoken]
        · exact hother _ _ _ hn (by rw [hl, Function.update_of_ne hn]) (by rw [hh]) (by simp)
      | stays ht =>
        by_cases hn : name = n
        · subst hn
          have hv : Apart name s (s.visit t (.turn name owner deadline) s.store []) :=
            apart_visit rfl rfl ht
          refine (h.line name).of_apart (hv.wait hin ?_)
          show _ = (s.waiting.get? t).bind _
          rw [hg]
          rfl
        · refine hother _ _ _ hn rfl rfl ?_
          rintro w' ⟨⟩
          rfl

theorem look_lawful (h : Sound s) (hg : s.waiting.get? t = some (a, w)) :
    Lawful (s.look t a w).log := by
  have hask : Lawful (s.log ++ s.nextAsk t w) :=
    h.lawful.append fun e he => (isQuiet_nextAsk he).1
  show Lawful ((s.visit t w (s.store.resume t s.now w).1 (s.store.resume t s.now w).2.1).settle t a
    (s.store.resume t s.now w).2.2).log
  cases hp : (s.store.resume t s.now w).2.2 with
  | waiting w' => exact hask
  | done o =>
    refine hask.concat (fits_answered fun n owner g ha ho => ?_)
    subst ho
    rw [keeper_append fun e he => (isQuiet_nextAsk he).1.isAside]
    have haw : w.turn? = some (n, owner) := (h.turns t a w hg).trans ha
    cases w with
    | token => cases haw
    | permits => cases haw
    | turn n' owner' deadline =>
      cases haw
      have hr := @Store.resume_resumed s.store t s.now n owner deadline
      generalize s.store.resume t s.now (.turn n owner deadline) = r at hr hp
      cases hr with
      | granted st ht => exact ((h.line n).head hg ht).1
      | quits => cases hp
      | stays => cases hp

theorem look (h : Sound s) (hg : s.waiting.get? t = some (a, w)) : Sound (s.look t a w) := by
  refine h.of_line (settle_tickets ..) ?_ ?_ (h.look_lawful hg) fun name => h.look_line hg
  · intro u a' w' hu
    rcases settle_get? hu with hu | ⟨rfl, rfl, hp⟩
    · exact ⟨w', hu, rfl⟩
    · refine ⟨w, hg, ?_⟩
      cases hw : w.turn? with
      | none => exact (Store.resume_beside hw).2 _ hp
      | some turn =>
        cases w with
        | token => cases hw
        | permits => cases hw
        | turn n owner deadline =>
          cases hw
          have hr := @Store.resume_resumed s.store u s.now n owner deadline
          generalize s.store.resume u s.now (.turn n owner deadline) = r at hr hp
          cases hr with
          | granted => cases hp
          | quits => cases hp
          | stays => cases hp; rfl
  · intro name
    show arrived name ((s.visit t w _ _).settle t a (s.store.resume t s.now w).2.2).log = _
    cases (s.store.resume t s.now w).2.2 with
    | waiting w' => exact arrived_append_of_none fun e he => (isQuiet_nextAsk he).2
    | done o =>
      show arrived name (s.log ++ s.nextAsk t w ++ [_]) = _
      rw [List.append_assoc]
      refine arrived_append_of_none fun e he => ?_
      rcases List.mem_append.1 he with he | he
      · exact (isQuiet_nextAsk he).2
      · rw [List.mem_singleton.1 he]
        rfl

theorem drop (h : Sound s) (hg : s.waiting.get? t = some (a, w)) : Sound (s.drop t w) := by
  have haside : ∀ name, (Entry.dropped t).IsAside name := fun _ => Entry.IsQuiet.isAside trivial
  have hw : ∀ u a' w', (s.drop t w).waiting.get? u = some (a', w') →
      ∃ w₀, s.waiting.get? u = some (a', w₀) ∧ w'.turn? = w₀.turn? := by
    intro u a' w' hu
    change (s.waiting.erase t).get? u = _ at hu
    rw [Table.get?_erase] at hu
    split at hu
    · cases hu
    · exact ⟨w', hu, rfl⟩
  refine h.of_line rfl hw ?_ (h.lawful.concat trivial) fun name => ?_
  · intro name
    exact arrived_append_of_none fun e he => by rw [List.mem_singleton.1 he]; rfl
  · -- A latch for which the attempt does not wait is apart from the step.
    have hother : (∀ o, w.turn? ≠ some (name, o)) →
        (s.store.cancel t w).1.latch name = s.store.latch name →
        (s.store.cancel t w).1.holders = s.store.holders → InLine (s.drop t w) name := by
      intro hapart hl hh
      have hq : t ∉ queue s.waiting name := by
        intro hm
        obtain ⟨a', w', o, hg', ho⟩ := mem_queue.1 hm
        cases hg.symm.trans hg'
        exact hapart o ho
      refine (h.line name).of_apart ⟨hl, congrArg (·.get? name) hh, queue_erase_of_not_mem hq,
        ⟨[.dropped t], rfl, ?_⟩, ?_, Nat.le_refl _, ?_⟩
      · intro e he
        rw [List.mem_singleton.1 he]
        exact haside name
      · intro u hu hn
        refine List.mem_append_left _ (List.mem_filter.2 ⟨hu, ?_⟩)
        have hne : u ≠ t := by
          rintro rfl
          exact h.not_holder hg hapart hn
        simpa using hne
      · intro u _ hn
        show (s.waiting.erase t).get? u = none
        rw [Table.get?_erase]
        split
        · rfl
        · exact hn
    cases hwt : w.turn? with
    | none =>
      have hb := @Store.cancel_beside s.store t w hwt
      exact hother (by simp [hwt]) (congrFun hb.latch name) hb.holders
    | some turn =>
      cases w with
      | token => cases hwt
      | permits => cases hwt
      | turn n owner deadline =>
        by_cases hn : name = n
        · subst hn
          refine (h.line name).quit hg rfl Store.latch_leaveLatch Store.holders_leaveLatch rfl rfl
            (haside name) ?_ (Nat.le_refl _)
          show _ ++ (s.store.leaveLatch name t).2 = _
          rw [Store.woken_leaveLatch]
        · refine hother ?_ ?_ Store.holders_leaveLatch
          · rintro o ⟨⟩
            exact hn rfl
          · show (s.store.leaveLatch n t).1.latch name = _
            rw [Store.latch_leaveLatch_eq, Function.update_of_ne hn]

/-! ## Latches are let go -/

theorem unlock (h : Sound s) (key : String) (u : Ulid) : Sound (s.unlock key u) := by
  have harr : ∀ name, arrived name (s.unlock key u).log = arrived name s.log := by
    intro name
    exact arrived_append_of_none fun e he => by rw [List.mem_singleton.1 he]; rfl
  have hw : ∀ t a w, (s.unlock key u).waiting.get? t = some (a, w) →
      ∃ w₀, s.waiting.get? t = some (a, w₀) ∧ w.turn? = w₀.turn? :=
    fun t a w hg => ⟨w, hg, rfl⟩
  have hholder := (h.line key).holder
  by_cases hk : ∃ t, s.store.holders.get? key = some (u, t)
  · obtain ⟨t, ht⟩ := hk
    have hkeep : keeper key s.log = some (some u, t) := fairHolder_eq_some.1 (hholder ▸ ht)
    have hs := Store.unlock_of_mem ht
    have hlog : (s.unlock key u).log = s.log ++ [.unlocked key u true] := by
      simp [Traffic.unlock, hs]
    refine h.of_line rfl hw harr ?_ fun name => ?_
    · rw [hlog]
      exact h.lawful.concat ⟨fun _ => ⟨t, hkeep⟩, fun _ => rfl⟩
    · by_cases hn : name = key
      · subst hn
        refine (h.line name).release hkeep ?_ ?_ rfl hlog rfl ?_
        · simp [Traffic.unlock, hs]
          rfl
        · simp [Traffic.unlock, hs, Table.get?_erase]
        · simp [Traffic.unlock, hs]
      · have hl : (s.unlock key u).store.latch name = s.store.latch name := by
          simp only [Traffic.unlock, hs]
          rw [Store.latch_leaveLatch_eq, Function.update_of_ne hn]
          rfl
        refine (h.line name).of_apart ⟨hl, ?_, rfl, ⟨_, hlog, ?_⟩, ?_, Nat.le_refl _, fun _ _ hu => hu⟩
        · simp [Traffic.unlock, hs, Table.get?_erase, hn]
        · intro e he
          rw [List.mem_singleton.1 he]
          refine ⟨fun _ hc => (by cases hc), fun hc => hn ?_⟩
          cases hc
          rfl
        · exact fun u hu _ => List.mem_append_left _ hu
  · have hs := Store.unlock_of_not_mem (not_exists.1 hk)
    have hlog : (s.unlock key u).log = s.log ++ [.unlocked key u false] := by
      simp [Traffic.unlock, hs]
    refine h.of_line rfl hw harr ?_ fun name => ?_
    · rw [hlog]
      refine h.lawful.concat ⟨by simp, ?_⟩
      rintro ⟨t, hkeep⟩
      refine absurd ⟨t, ?_⟩ hk
      rw [hholder, hkeep]
      rfl
    · refine (h.line name).of_apart (.of_store ?_ ?_ rfl ⟨_, hlog, ?_⟩ ?_ rfl)
      · simp [Traffic.unlock, hs]
      · simp [Traffic.unlock, hs]
      · intro e he
        rw [List.mem_singleton.1 he]
        exact ⟨fun _ hc => (by cases hc), fun hc => (by cases hc)⟩
      · exact fun u hu => List.mem_append_left _ hu

theorem free (h : Sound s) (key : String) (t : Ticket) : Sound (s.free key t) := by
  unfold Traffic.free
  split
  · rename_i hkeep
    refine h.of_line rfl (fun t a w hg => ⟨w, hg, rfl⟩) ?_ (h.lawful.concat hkeep) fun name => ?_
    · intro name
      exact arrived_append_of_none fun e he => by rw [List.mem_singleton.1 he]; rfl
    · by_cases hn : name = Store.lockName key
      · subst hn
        refine (h.line _).release hkeep Store.latch_leaveLatch ?_ rfl rfl rfl ?_
        · show (s.store.leaveLatch _ t).1.holders.get? _ = none
          rw [Store.holders_leaveLatch, (h.line _).holder, hkeep]
          rfl
        · show _ ++ (s.store.leaveLatch _ t).2 = _
          rw [Store.woken_leaveLatch]
      · refine (h.line name).of_apart ⟨?_, ?_, rfl, ⟨_, rfl, ?_⟩, ?_, Nat.le_refl _,
          fun _ _ hu => hu⟩
        · show (s.store.leaveLatch _ t).1.latch name = _
          rw [Store.latch_leaveLatch_eq, Function.update_of_ne hn]
        · exact congrArg (·.get? name) Store.holders_leaveLatch
        · intro e he
          rw [List.mem_singleton.1 he]
          refine ⟨nofun, fun hc => hn ?_⟩
          cases hc
          rfl
        · exact fun u hu _ => List.mem_append_left _ hu
  · exact h

/-- A step that leaves latches, holders, attempts and the log alone. -/
theorem of_store (h : Sound s) (hl : s'.store.latch = s.store.latch)
    (hh : s'.store.holders = s.store.holders) (hw : s'.waiting = s.waiting) (hlog : s'.log = s.log)
    (hwoken : ∀ t ∈ s.woken, t ∈ s'.woken) (ht : s'.tickets = s.tickets) : Sound s' := by
  refine h.of_line ht (fun t a w hg => ⟨w, by rwa [hw] at hg, rfl⟩) (fun name => by rw [hlog])
    (by rw [hlog]; exact h.lawful) fun name => ?_
  refine (h.line name).of_apart (.of_store hl hh hw ⟨[], by simp [hlog], nofun⟩ hwoken ht.symm)

theorem pass (h : Sound s) (now : Nat) : Sound { s with now } :=
  h.of_store rfl rfl rfl rfl (fun _ ht => ht) rfl

theorem step (h : Sound s) (m : Move) : Sound (s.step m) := by
  cases m with
  | begin a => exact h.begin a
  | look t =>
    unfold Traffic.step
    dsimp only
    split
    · rename_i a w hg
      exact h.look hg
    · exact h
  | drop t =>
    unfold Traffic.step
    dsimp only
    split
    · rename_i a w hg
      exact h.drop hg
    · exact h
  | unlock key u => exact h.unlock key u
  | free key t => exact h.free key t
  | giveBack key =>
    have hb : Store.Beside s.store (s.store.giveBack key s.now).1 := Store.giveBack_beside
    exact h.of_store hb.latch hb.holders rfl rfl (fun t ht => List.mem_append_left _ ht) rfl
  | sweep time =>
    have hb : Store.Beside s.store (s.store.sweep time) := Store.sweep_beside
    exact h.of_store hb.latch hb.holders rfl rfl (fun _ ht => ht) rfl
  | pass => exact h.pass _

end Sound

/-- A move notes quiet entries before its last. -/
theorem log_step (s : Traffic) (m : Move) :
    ∃ quiet, (s.step m).log = s.log ++ quiet ++ (s.note m).toList ∧ ∀ e ∈ quiet, e.IsQuiet := by
  have hstill : s.log = s.log ++ [] ++ Option.toList none := by simp
  have hone : ∀ e, s.log ++ [e] = s.log ++ [] ++ Option.toList (some e) := by simp
  have hnil : ∀ e ∈ ([] : List Entry), e.IsQuiet := by simp
  unfold Traffic.step note
  cases m with
  | begin a =>
    refine ⟨_, settle_log (s.arrive a _) .., fun e he => ?_⟩
    rcases List.mem_cons.1 he with rfl | he
    · trivial
    · exact (isQuiet_firstAsk he).1
  | look t =>
    dsimp only
    split
    · rename_i a w _
      exact ⟨_, settle_log (s.visit t w _ _) .., fun e he => (isQuiet_nextAsk he).1⟩
    · exact ⟨[], hstill, hnil⟩
  | drop t =>
    dsimp only [Traffic.drop]
    cases s.waiting.get? t with
    | some x => exact ⟨[], hone _, hnil⟩
    | none => exact ⟨[], hstill, hnil⟩
  | unlock key u =>
    dsimp only [Traffic.unlock]
    exact ⟨[], hone _, hnil⟩
  | free key t =>
    dsimp only [Traffic.free]
    split
    · exact ⟨[], hone _, hnil⟩
    · exact ⟨[], hstill, hnil⟩
  | giveBack =>
    dsimp only [Traffic.giveBack]
    exact ⟨[], hstill, hnil⟩
  | sweep => exact ⟨[], hstill, hnil⟩
  | pass millis =>
    obtain ⟨now, -, hpass⟩ := s.step_pass millis
    have hlog : (s.step (.pass millis)).log = s.log := hpass s rfl ▸ rfl
    exact ⟨[], hlog.trans hstill, hnil⟩

theorem note_of_mem {m : Move} {es : List Entry} (hlog : (s.step m).log = s.log ++ es)
    (he : e ∈ es) (hq : ¬ e.IsQuiet) : s.note m = some e := by
  obtain ⟨quiet, hstep, hquiet⟩ := log_step s m
  rw [hlog, List.append_assoc] at hstep
  rw [List.append_cancel_left hstep] at he
  rcases List.mem_append.1 he with he | he
  · exact absurd (hquiet e he) hq
  · exact Option.mem_toList.1 he

theorem run_sound (client : Ulid) (moves : List Move) : Sound ((Traffic.start client).run moves) :=
  run_induction (.start client) (fun _ m h => h.step m) moves

end Traffic

end Turnstile.Local
