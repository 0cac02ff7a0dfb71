import Turnstile.Proofs.Local.Sound

/-!
# One owner at a time

A fair lock belongs to the owner whose try was granted, until that owner lets it go: in every run,
with timeouts, dropped callers and sweeps anywhere, nobody else is granted the lock in between.
-/

namespace Turnstile.Local

namespace Traffic

variable {s : Traffic} {name key : String} {t : Ticket} {u : Ulid} {log l₁ l₂ : List Entry}
  {e : Entry} {k : Keeper} {m : Move}

/-- A try for the fair lock of `key` has answered yes to `owner`. -/
def Entry.Locks (key : String) (owner : Ulid) (e : Entry) : Prop :=
  ∃ t wait g, e = .answered t (.lock key owner wait) (.ok (some g))

/-- The fair locks of a store after a run, and what the next move does to them. -/
structure Exclusive (s : Traffic) : Prop where
  /-- Between two grants of a lock, its first owner lets it go. -/
  between : ∀ key u u' e e' l₁ l₂ l₃, s.log = l₁ ++ e :: l₂ ++ e' :: l₃ → e.Locks key u →
    e'.Locks key u' → .unlocked key u true ∈ l₂
  held : ∀ key u, s.store.isHeldBy key u = true ↔
    ∃ l₁ e l₂, s.log = l₁ ++ e :: l₂ ∧ e.Locks key u ∧ .unlocked key u true ∉ l₂
  unlocks : ∀ key u, (s.store.unlock key u).2.1 = s.store.isHeldBy key u
  refuses : ∀ key u, s.store.isHeldBy key u = false →
    s.store.unlock key u = (s.store, false, [])
  /-- A grant finds no holder and leaves one. -/
  grants : ∀ m es e key u, (s.step m).log = s.log ++ es → e ∈ es → e.Locks key u →
    s.store.holders.get? key = none ∧ ∃ t, (s.step m).store.holders.get? key = some (u, t)
  /-- Who is entered as the holder holds the latch that has the name of the key now. -/
  guards : ∀ key u t, s.store.holders.get? key = some (u, t) →
    ∃ line, s.store.latches.get? key = some (.held t line)

theorem Entry.Locks.granted (h : e.Locks key u) : ∃ t, e.granted? = some (key, some u, t) := by
  obtain ⟨t, wait, g, rfl⟩ := h
  exact ⟨t, rfl⟩

theorem Entry.locks_of_granted (h : e.granted? = some (key, some u, t)) : e.Locks key u := by
  unfold Entry.granted? at h
  split at h
  · rename_i t' a g
    cases a with
    | lock key' u' wait =>
      cases h
      exact ⟨_, wait, g, rfl⟩
    | _ => cases h
  · cases h

/-! ## Keepers -/

/-- A keeper was granted the latch, and since then nothing happened to it. -/
theorem exists_of_keeper (h : keeper name log = some k) :
    ∃ l₁ e l₂, log = l₁ ++ e :: l₂ ∧ e.granted? = some (name, k) ∧
      ∀ e' ∈ l₂, e'.IsAside name := by
  induction log using List.reverseRecOn with
  | nil => cases h
  | append_singleton log e ih =>
    rw [keeper_concat] at h
    by_cases ha : e.IsAside name
    · rw [keep_of_isAside ha] at h
      obtain ⟨l₁, e₀, l₂, rfl, hg, hl⟩ := ih h
      refine ⟨l₁, e₀, l₂ ++ [e], by simp, hg, fun e' he' => ?_⟩
      rcases List.mem_append.1 he' with he' | he'
      · exact hl e' he'
      · rw [List.mem_singleton.1 he']
        exact ha
    · by_cases hl : e.letsGo? = some name
      · rw [keep_of_letsGo hl] at h
        cases h
      · have hg : ∃ k', e.granted? = some (name, k') := by
          by_contra hn
          exact ha ⟨fun k' hk' => hn ⟨k', hk'⟩, hl⟩
        obtain ⟨k', hg⟩ := hg
        rw [keep_of_granted hg] at h
        cases h
        exact ⟨log, e, [], rfl, hg, nofun⟩

/-- The owner of a fair lock keeps it until that owner unlocks it. -/
theorem Lawful.keeps (h : Lawful (l₁ ++ l₂)) (hk : keeper key l₁ = some (some u, t))
    (hu : .unlocked key u true ∉ l₂) : keeper key (l₁ ++ l₂) = some (some u, t) := by
  induction l₂ using List.reverseRecOn with
  | nil => simpa using hk
  | append_singleton l₂ e ih =>
    rw [← List.append_assoc] at h ⊢
    have hu' : .unlocked key u true ∉ l₂ := fun hm => hu (List.mem_append_left _ hm)
    have hkeep := ih h.of_append hu'
    have hfits : Fits (l₁ ++ l₂) e := h _ e [] (by simp)
    -- The last entry fits a log in which `u` keeps the lock, so it neither grants nor frees it.
    rw [keeper_concat, keep_of_isAside, hkeep]
    refine ⟨fun k hg => ?_, fun hgo => ?_⟩
    · cases e with
      | answered t' a o =>
        have hn := hfits key k hg
        rw [hkeep] at hn
        cases hn
      | _ => cases hg
    · cases e with
      | unlocked key' u' done =>
        cases done with
        | false => cases hgo
        | true =>
          cases hgo
          obtain ⟨t', ht'⟩ := hfits.1 rfl
          rw [hkeep] at ht'
          cases ht'
          exact hu (by simp)
      | freed key' t' =>
        cases hgo
        have hn : keeper (Store.lockName key') (l₁ ++ l₂) = some (none, t') := hfits
        rw [hkeep] at hn
        cases hn
      | _ => cases hgo

namespace Sound

variable (h : Sound s)
include h

theorem isHeldBy_iff : s.store.isHeldBy key u = true ↔ ∃ t, keeper key s.log = some (some u, t) := by
  unfold Store.isHeldBy
  rw [(h.line key).holder]
  rcases keeper key s.log with _ | ⟨_ | v, t⟩ <;> simp [fairHolder]

theorem between {u' : Ulid} {e' : Entry} {l₃ : List Entry}
    (hlog : s.log = l₁ ++ e :: l₂ ++ e' :: l₃) (he : e.Locks key u) (he' : e'.Locks key u') :
    .unlocked key u true ∈ l₂ := by
  by_contra hu
  obtain ⟨t, ht⟩ := he.granted
  obtain ⟨t', wait', g', rfl⟩ := he'
  have hk : keeper key (l₁ ++ [e]) = some (some u, t) := by
    rw [keeper_concat, keep_of_granted ht]
  have hl : Lawful (l₁ ++ [e] ++ l₂) := by
    have hall := h.lawful
    rw [hlog, List.append_cons l₁] at hall
    exact hall.of_append
  have hkeep := hl.keeps hk hu
  have hn : keeper key (l₁ ++ e :: l₂) = none :=
    h.lawful _ (.answered t' (.lock key u' wait') (.ok (some g'))) l₃ hlog key _ rfl
  rw [List.append_cons, hkeep] at hn
  cases hn

theorem held : s.store.isHeldBy key u = true ↔
    ∃ l₁ e l₂, s.log = l₁ ++ e :: l₂ ∧ e.Locks key u ∧ .unlocked key u true ∉ l₂ := by
  rw [h.isHeldBy_iff]
  constructor
  · rintro ⟨t, hk⟩
    obtain ⟨l₁, e, l₂, hlog, hg, ha⟩ := exists_of_keeper hk
    refine ⟨l₁, e, l₂, hlog, Entry.locks_of_granted hg, fun hm => ?_⟩
    exact (ha _ hm).letsGo rfl
  · rintro ⟨l₁, e, l₂, hlog, he, hu⟩
    obtain ⟨t, ht⟩ := he.granted
    have hk : keeper key (l₁ ++ [e]) = some (some u, t) := by
      rw [keeper_concat, keep_of_granted ht]
    have hl : Lawful (l₁ ++ [e] ++ l₂) := by
      rw [← List.append_cons, ← hlog]
      exact h.lawful
    refine ⟨t, ?_⟩
    rw [hlog, List.append_cons]
    exact hl.keeps hk hu

theorem grants {es : List Entry} (hlog : (s.step m).log = s.log ++ es) (he : e ∈ es)
    (hl : e.Locks key u) :
    s.store.holders.get? key = none ∧
      ∃ t, (s.step m).store.holders.get? key = some (u, t) := by
  obtain ⟨quiet, hstep, hq⟩ := log_step s m
  obtain ⟨t, ht⟩ := hl.granted
  have hnote : s.note m = some e := by
    obtain ⟨t', wait, g, rfl⟩ := hl
    exact note_of_mem hlog he id
  rw [hnote] at hstep
  have hk : keeper key (s.log ++ quiet) = keeper key s.log :=
    keeper_append fun e he => (hq e he).isAside
  have hfits : Fits (s.log ++ quiet) e := (h.step m).lawful _ e [] hstep
  have hfree : keeper key s.log = none := by
    obtain ⟨t', wait, g, rfl⟩ := hl
    rw [← hk]
    exact hfits key _ rfl
  have hkeep : keeper key (s.step m).log = some (some u, t) := by
    rw [hstep]
    exact keeper_concat.trans (keep_of_granted ht _)
  constructor
  · rw [(h.line key).holder, hfree]
    rfl
  · rw [((h.step m).line key).holder, hkeep]
    exact ⟨t, rfl⟩

theorem guards (hh : s.store.holders.get? key = some (u, t)) :
    ∃ line, s.store.latches.get? key = some (.held t line) := by
  have hk : keeper key s.log = some (some u, t) :=
    fairHolder_eq_some.1 ((h.line key).holder ▸ hh)
  have hl : s.store.latch key = .held t (queue s.waiting key) := by
    rw [(h.line key).latch, hk]
    rfl
  unfold Store.latch at hl
  cases hg : s.store.latches.get? key with
  | none =>
    rw [hg] at hl
    cases hl
  | some l =>
    rw [hg] at hl
    exact ⟨_, congrArg some hl⟩

end Sound

theorem run_exclusive (client : Ulid) (moves : List Move) : Exclusive ((start client).run moves) := by
  have h := run_sound client moves
  have hunlock : ∀ key u, ((start client).run moves).store.isHeldBy key u = false →
      ((start client).run moves).store.unlock key u = (((start client).run moves).store, false, []) := by
    intro key u hn
    refine Store.unlock_of_not_mem fun t ht => ?_
    simp [Store.isHeldBy, ht] at hn
  refine ⟨?between, ?held, ?unlocks, hunlock, ?grants, ?guards⟩
  case between =>
    intro key u u' e e' l₁ l₂ l₃ hlog he he'
    exact h.between hlog he he'
  case held =>
    intro key u
    exact h.held
  case unlocks =>
    intro key u
    cases hh : ((start client).run moves).store.isHeldBy key u with
    | false => rw [hunlock key u hh]
    | true =>
      unfold Store.isHeldBy at hh
      split at hh
      · rename_i v t ht
        have hv : v = u := by simpa using hh
        subst hv
        exact (Store.unlock_of_holder ht).2.1
      · cases hh
  case grants =>
    intro m es e key u hlog he hl
    exact h.grants hlog he hl
  case guards =>
    intro key u t hh
    exact h.guards hh

/-- The second caller is granted the lock at the first look after it was let go. -/
example : ((start ⟨0⟩).run [.begin (.lock "k" ⟨1⟩ .zero), .begin (.lock "k" ⟨2⟩ (.ofMillis 5)),
    .unlock "k" ⟨1⟩, .look 1]).store.isHeldBy "k" ⟨2⟩ = true := by
  decide

end Traffic

end Turnstile.Local
