import Turnstile.Proofs.Local.Overdraft

/-!
# Attempts, from their arrival to their end

Who waits came with good input and remembers what was asked for. Every attempt is answered or
dropped once at most.
-/

namespace Turnstile.Local

/-- What waits for permits remembers what the attempt asked for. -/
def Waiting.IsOf (a : Attempt) : Waiting → Prop
  | permits key plan n _ => ∃ demand, a = .permits key plan demand ∧ n = demand.permits.toNat
  | _ => True

namespace Store

variable {s : Store} {t : Ticket} {now deadline : Nat} {name bucket : String} {owner : Option Ulid}
  {a : Attempt} {w w' : Waiting} {rate : RatePlan}

theorem tryToken_isOf (h : (s.tryToken t now bucket rate deadline).2 = .waiting w) : w.IsOf a := by
  unfold tryToken at h
  split at h
  · cases h
  · split at h
    · cases h
      trivial
    · cases h

theorem enterLatch_isOf (h : (s.enterLatch t name owner deadline).2 = .waiting w) : w.IsOf a := by
  unfold enterLatch at h
  dsimp only at h
  split at h
  · cases h
  · cases h
    trivial

theorem start_isOf (h : (s.start t now a).2 = .waiting w) : w.IsOf a := by
  cases a with
  | token => exact tryToken_isOf h
  | permits key plan demand =>
    rw [tryPermits_waiting h]
    exact ⟨demand, rfl, rfl⟩
  | lock =>
    simp only [start, tryLatch] at h
    split at h
    · split at h <;> cases h
    · exact enterLatch_isOf h
  | named key wait =>
    simp only [start] at h
    split at h
    · rename_i s' w' hs
      split at h
      · cases h
      · cases h
        exact enterLatch_isOf (congrArg Prod.snd hs)
    · exact enterLatch_isOf h

theorem resume_isOf (hw : w.IsOf a) (h : (s.resume t now w).2.2 = .waiting w') : w'.IsOf a := by
  cases w with
  | token =>
    simp only [resume] at h
    split at h
    · exact tryToken_isOf h
    · cases h
      trivial
  | turn =>
    simp only [resume] at h
    split at h
    · cases h
    · split at h
      · cases h
      · cases h
        trivial
  | permits =>
    rw [resume_permits_waiting h]
    exact hw

end Store

namespace Traffic

variable {s : Traffic} {t : Ticket} {a : Attempt} {w : Waiting} {m : Move} {log : List Entry}

theorem log_subset {e : Entry} (he : e ∈ s.log) : e ∈ (s.step m).log := by
  obtain ⟨quiet, hlog, -⟩ := log_step s m
  rw [hlog]
  exact List.mem_append_left _ (List.mem_append_left _ he)

theorem arrived_mem_begin : .arrived s.tickets a ∈ (s.begin a).log := by
  show _ ∈ ((s.arrive a _).settle s.tickets a _).log
  rw [settle_log]
  simp [arrive]

/-! ## Who waits -/

/-- Who waits came with good input, and remembers it. -/
def Known (s : Traffic) : Prop :=
  ∀ t a w, s.waiting.get? t = some (a, w) → .arrived t a ∈ s.log ∧ a.check = .ok () ∧ w.IsOf a

/-- Who waits after a step waited before and was not looked at, or goes on waiting after a look, or
has just come. -/
theorem waiting_cases (h : (s.step m).waiting.get? t = some (a, w)) :
    s.waiting.get? t = some (a, w) ∧ m ≠ .look t ∨
      (∃ w₀, s.waiting.get? t = some (a, w₀) ∧ m = .look t ∧
        (s.store.resume t s.now w₀).2.2 = .waiting w) ∨
      m = .begin a ∧ t = s.tickets ∧ (s.store.begin t s.now a).2 = .waiting w := by
  cases m with
  | begin a' =>
    rcases settle_get? h with h | ⟨rfl, rfl, hp⟩
    · exact .inl ⟨h, by rintro ⟨⟩⟩
    · exact .inr (.inr ⟨rfl, rfl, hp⟩)
  | look u =>
    simp only [Traffic.step] at h
    split at h
    · rename_i a' w' hu
      by_cases ht : t = u
      · subst ht
        obtain ⟨rfl, hp⟩ := settle_get?_self h
        exact .inr (.inl ⟨w', hu, rfl, hp⟩)
      · rw [look, settle_get?_of_ne ht] at h
        exact .inl ⟨h, fun he => ht (Move.look.inj he).symm⟩
    · rename_i hu
      refine .inl ⟨h, ?_⟩
      rintro ⟨⟩
      cases hu.symm.trans h
  | drop u =>
    refine .inl ⟨?_, by rintro ⟨⟩⟩
    simp only [Traffic.step] at h
    split at h
    · change (s.waiting.erase u).get? t = _ at h
      rw [Table.get?_erase] at h
      split at h
      · cases h
      · exact h
    · exact h
  | free key u =>
    refine .inl ⟨?_, by rintro ⟨⟩⟩
    simp only [Traffic.step, Traffic.free] at h
    split at h <;> exact h
  | unlock => exact .inl ⟨h, by rintro ⟨⟩⟩
  | giveBack => exact .inl ⟨h, by rintro ⟨⟩⟩
  | sweep => exact .inl ⟨h, by rintro ⟨⟩⟩
  | pass millis =>
    obtain ⟨now, -, hpass⟩ := s.step_pass millis
    rw [hpass s rfl] at h
    exact .inl ⟨h, by rintro ⟨⟩⟩

/-- Nobody waits after a step who did not wait before, but an attempt that begins. -/
theorem waiting_step (h : (s.step m).waiting.get? t = some (a, w)) :
    (∃ w₀, s.waiting.get? t = some (a, w₀) ∧ (w₀.IsOf a → w.IsOf a)) ∨
      m = .begin a ∧ t = s.tickets ∧ a.check = .ok () ∧ w.IsOf a := by
  rcases waiting_cases h with ⟨hg, -⟩ | ⟨w₀, hg, -, hp⟩ | ⟨hm, ht, hp⟩
  · exact .inl ⟨w, hg, id⟩
  · exact .inl ⟨w₀, hg, fun hw => Store.resume_isOf hw hp⟩
  · unfold Store.begin at hp
    split at hp
    · cases hp
    · rename_i hc
      exact .inr ⟨hm, ht, hc, Store.start_isOf hp⟩

theorem Known.start (client : Ulid) : Known (start client) := nofun

theorem Known.step (h : Known s) (m : Move) : Known (s.step m) := by
  intro t a w hg
  rcases waiting_step hg with ⟨w₀, hg, hw⟩ | ⟨rfl, rfl, hc, hw⟩
  · obtain ⟨harr, hc, hw₀⟩ := h t a w₀ hg
    exact ⟨log_subset harr, hc, hw hw₀⟩
  · exact ⟨arrived_mem_begin, hc, hw⟩

/-! ## Who came to an end -/

/-- The attempt that comes to its end. -/
def Entry.ended? : Entry → Option Ticket
  | answered t _ _ => some t
  | dropped t => some t
  | _ => none

def endings (log : List Entry) : List Ticket := log.filterMap Entry.ended?

theorem endings_firstAsk : endings (s.firstAsk a) = [] := by
  refine List.filterMap_eq_nil_iff.2 fun e he => ?_
  unfold firstAsk at he
  split at he
  · split at he
    · rw [List.mem_singleton.1 he]
      rfl
    · cases he
  · cases he

theorem endings_nextAsk : endings (s.nextAsk t w) = [] := by
  refine List.filterMap_eq_nil_iff.2 fun e he => ?_
  unfold nextAsk at he
  split at he
  · split at he
    · split at he
      · rw [List.mem_singleton.1 he]
        rfl
      · cases he
    · cases he
  · cases he

theorem endings_append {es : List Entry} : endings (log ++ es) = endings log ++ endings es :=
  List.filterMap_append ..

theorem endings_settle {s₀ : Traffic} {p : Progress} (hlog : endings s₀.log = endings log) :
    endings (s₀.settle t a p).log = endings log ∨
      endings (s₀.settle t a p).log = endings log ++ [t] ∧
        (s₀.settle t a p).waiting.get? t = none := by
  rw [settle_log, endings_append, hlog]
  cases p with
  | waiting w => exact .inl (List.append_nil _)
  | done o =>
    refine .inr ⟨rfl, ?_⟩
    show (s₀.waiting.erase t).get? t = none
    rw [Table.get?_erase, if_pos rfl]

/-- An attempt that a step ends has just begun or was there, and is gone afterwards. -/
theorem endings_step (m : Move) :
    endings (s.step m).log = endings s.log ∨
      ∃ t, endings (s.step m).log = endings s.log ++ [t] ∧ (s.step m).waiting.get? t = none ∧
        (t = s.tickets ∧ t < (s.step m).tickets ∨ s.waiting.get? t ≠ none) := by
  cases m with
  | begin a =>
    have harr : ∀ st, endings (s.arrive a st).log = endings s.log := by
      intro st
      show endings (s.log ++ ([.arrived s.tickets a] ++ s.firstAsk a)) = _
      rw [endings_append, endings_append, endings_firstAsk]
      exact List.append_nil _
    rcases endings_settle (t := s.tickets) (a := a) (p := (s.store.begin s.tickets s.now a).2)
      (harr (s.store.begin s.tickets s.now a).1) with h | ⟨h, hw⟩
    · exact .inl h
    · refine .inr ⟨s.tickets, h, hw, .inl ⟨rfl, ?_⟩⟩
      show s.tickets < (s.begin a).tickets
      rw [Sound.begin_tickets]
      exact Nat.lt_succ_self _
  | look t =>
    simp only [Traffic.step]
    cases hg : s.waiting.get? t with
    | none => exact .inl rfl
    | some x =>
      obtain ⟨a, w⟩ := x
      have hvisit : ∀ st woken, endings (s.visit t w st woken).log = endings s.log := by
        intro st woken
        show endings (s.log ++ s.nextAsk t w) = _
        rw [endings_append, endings_nextAsk, List.append_nil]
      rcases endings_settle (t := t) (a := a) (p := (s.store.resume t s.now w).2.2)
        (hvisit (s.store.resume t s.now w).1 (s.store.resume t s.now w).2.1) with h | ⟨h, hw⟩
      · exact .inl h
      · exact .inr ⟨t, h, hw, .inr (by simp [hg])⟩
  | drop t =>
    simp only [Traffic.step]
    cases hg : s.waiting.get? t with
    | none => exact .inl rfl
    | some x =>
      refine .inr ⟨t, endings_append, ?_, .inr (by simp [hg])⟩
      show (s.waiting.erase t).get? t = none
      rw [Table.get?_erase, if_pos rfl]
  | unlock key u => exact .inl (endings_append.trans (List.append_nil _))
  | free key t =>
    simp only [Traffic.step, Traffic.free]
    split
    · exact .inl (endings_append.trans (List.append_nil _))
    · exact .inl rfl
  | giveBack => exact .inl rfl
  | sweep => exact .inl rfl
  | pass millis =>
    obtain ⟨now, -, hpass⟩ := s.step_pass millis
    rw [hpass s rfl]
    exact .inl rfl

theorem tickets_step (m : Move) : s.tickets ≤ (s.step m).tickets := by
  cases m with
  | begin a =>
    show s.tickets ≤ (s.begin a).tickets
    rw [Sound.begin_tickets]
    exact Nat.le_succ _
  | look t =>
    simp only [Traffic.step]
    split
    · rename_i a w _
      show s.tickets ≤ ((s.visit t w _ _).settle t a _).tickets
      rw [settle_tickets]
      exact Nat.le_refl _
    · exact Nat.le_refl _
  | drop t =>
    simp only [Traffic.step]
    split
    · exact Nat.le_refl _
    · exact Nat.le_refl _
  | free key t =>
    simp only [Traffic.step, Traffic.free]
    split
    · exact Nat.le_refl _
    · exact Nat.le_refl _
  | unlock => exact Nat.le_refl _
  | giveBack => exact Nat.le_refl _
  | sweep => exact Nat.le_refl _
  | pass millis =>
    obtain ⟨now, -, hpass⟩ := s.step_pass millis
    exact Nat.le_of_eq (congrArg Traffic.tickets (hpass s rfl)).symm

/-- Only time that passes moves the clock. -/
theorem now_step (m : Move) :
    (s.step m).now = s.now ∨
      ∃ millis, m = .pass millis ∧ (s.step m).now = s.now + Clock.ofMillis millis := by
  cases m with
  | begin a => exact .inl (settle_now ..)
  | look t =>
    simp only [Traffic.step]
    split
    · exact .inl (settle_now ..)
    · exact .inl rfl
  | drop t =>
    simp only [Traffic.step]
    split <;> exact .inl rfl
  | free key t =>
    simp only [Traffic.step, Traffic.free]
    split <;> exact .inl rfl
  | unlock => exact .inl rfl
  | giveBack => exact .inl rfl
  | sweep => exact .inl rfl
  | pass millis => exact .inr ⟨millis, rfl, rfl⟩

theorem le_now_step (m : Move) : s.now ≤ (s.step m).now := by
  rcases now_step (s := s) m with h | ⟨millis, -, h⟩
  · exact Nat.le_of_eq h.symm
  · exact h ▸ Nat.le_add_right ..

/-- Who came to an end does not wait, and no ticket ends twice. -/
structure Ended (s : Traffic) : Prop where
  nodup : (endings s.log).Nodup
  gone : ∀ t ∈ endings s.log, t < s.tickets ∧ s.waiting.get? t = none

theorem Ended.start (client : Ulid) : Ended (start client) := ⟨List.nodup_nil, nofun⟩

theorem Ended.step (h : Ended s) (hs : Sound s) (m : Move) : Ended (s.step m) := by
  have hstill : ∀ t ∈ endings s.log, t < (s.step m).tickets ∧ (s.step m).waiting.get? t = none := by
    intro t ht
    obtain ⟨hlt, hg⟩ := h.gone t ht
    refine ⟨Nat.lt_of_lt_of_le hlt (tickets_step m), ?_⟩
    cases hg' : (s.step m).waiting.get? t with
    | none => rfl
    | some x =>
      rcases waiting_step hg' with ⟨w₀, hw₀, -⟩ | ⟨-, rfl, -⟩
      · cases hg.symm.trans hw₀
      · exact absurd hlt (Nat.lt_irrefl _)
  rcases endings_step (s := s) m with he | ⟨t, he, hw, ht⟩
  · constructor
    · rw [he]
      exact h.nodup
    · rw [he]
      exact hstill
  · have hnew : t ∉ endings s.log := by
      intro hm
      rcases ht with ⟨rfl, -⟩ | ht
      · exact absurd (h.gone _ hm).1 (Nat.lt_irrefl _)
      · exact ht (h.gone _ hm).2
    have hlt : t < (s.step m).tickets := by
      rcases ht with ⟨-, ht⟩ | ht
      · exact ht
      · obtain ⟨x, hx⟩ := Option.ne_none_iff_exists'.1 ht
        exact Nat.lt_of_lt_of_le (hs.fresh t x hx) (tickets_step m)
    constructor
    · rw [he]
      refine List.nodup_append.2 ⟨h.nodup, List.pairwise_singleton .., fun u hu v hv => ?_⟩
      rw [List.mem_singleton.1 hv]
      rintro rfl
      exact hnew hu
    · intro u hu
      rw [he] at hu
      rcases List.mem_append.1 hu with hu | hu
      · exact hstill u hu
      · rw [List.mem_singleton.1 hu]
        exact ⟨hlt, hw⟩

theorem run_ended (client : Ulid) (moves : List Move) : Ended ((start client).run moves) := by
  have h₀ : Sound (Traffic.start client) ∧ Ended (Traffic.start client) :=
    ⟨.start client, .start client⟩
  have hstep : ∀ s m, Sound s ∧ Ended s → Sound (s.step m) ∧ Ended (s.step m) :=
    fun _ m h => ⟨h.1.step m, h.2.step h.1 m⟩
  exact (run_induction h₀ hstep moves).2

end Traffic

end Turnstile.Local
