import Mathlib.Data.List.Forall2
import Mathlib.Data.List.Nodup
import Turnstile.Proofs.Admission.Account

/-!
# Dropped reservations

A reservation that is dropped while it waits for a call leaves what it owes to tasks of their own,
one for each release (`Ran`). Once they have run, a grant was released exactly once, unless the
reservation was dropped while it was releasing that very grant: a release that has begun is owed no
longer, so nobody takes it up again (`drop_completes`). No release is ever done twice.
-/

namespace Turnstile.Admission

/-- The task of a release has run to its end with the calls `t`. -/
def Ran (r : Release) (t : History) : Prop :=
  Strand.Leads Release.program ⟨r.program, []⟩ t ⟨.done (), []⟩

/-- The releases completed after a call of a trace. -/
def complete (rs : List Release) (e : Asked collaborators) : List Release :=
  rs ++ completed (awaited [e])

section

variable {p : Policy} {q : Request} {h t u : History} {φ : Phase} {c : Call} {r : Release}
  {ts : List History} {s : Strand collaborators Release (Except AdmissionError Reservation)}

theorem foldl_complete (rs : List Release) : t.foldl complete rs = rs ++ completed (awaited t) := by
  induction t generalizing rs with
  | nil => simp
  | cons e t ih =>
    rw [List.foldl_cons, ih, complete, List.append_assoc, ← completed_append, ← awaited_append]
    rfl

theorem Ran.completed (hr : Ran r t) : completed (awaited t) = [r] := by
  have note {guard : GuardName} {ε : Type} (answer : Except ε Bool) :
      Strand.Always Release.program complete (fun _ _ _ => True) (fun _ rs _ => rs = [r]) [r]
        ⟨Release.noteFailure guard answer, []⟩ := by
    cases answer with
    | error e => exact .call trivial fun _ => .done rfl
    | ok b => exact .done rfl
  have ha : Strand.Always Release.program complete (fun _ _ _ => True) (fun _ rs _ => rs = [r]) []
      ⟨r.program, []⟩ := by
    cases r with
    | lock key owner =>
      refine .call trivial fun a => ?_
      rcases a with e | _ | _
      · exact note (.error e)
      · exact .done rfl
      · exact .call trivial fun a => note a
    | spareLock held => exact .call trivial fun a => note _
    | permits spare key => exact .call trivial fun a => note _
  have := (ha.leads hr).end_of_result rfl
  rwa [foldl_complete] at this

/-- The tasks of several releases complete these, in whatever order they run. -/
theorem completed_of_ran {rs : List Release} (ht : List.Forall₂ Ran rs ts)
    (hu : u.Perm ts.flatten) : (completed (awaited u)).Perm rs := by
  have hc : completed (awaited ts.flatten) = rs := by
    clear hu
    induction ht with
    | nil => rfl
    | cons hr _ ih =>
      rw [List.flatten_cons, awaited_append, completed_append, hr.completed, ih]
      rfl
  rw [← hc]
  exact (hu.filter _).filterMap _

theorem Hold.nodup (l : Hold) {spare : Bool} {key : SlotKey} :
    [l.release q, .permits spare key].Nodup := by
  cases l <;> simp [Hold.release]

theorem Cleared.nodup {l : Hold} {g b : List Release} (hb : Cleared q l g b) : g.Nodup := by
  rcases hb with ⟨rfl, -⟩ | ⟨spare, rfl, -⟩
  · simp
  · exact l.nodup

theorem Cleared.perm {l : Hold} {g b : List Release} (hb : Cleared q l g b) :
    g.Perm (b ++ [l.release q]) := by
  rcases hb with ⟨rfl, rfl⟩ | ⟨spare, rfl, rfl⟩
  · exact .rfl
  · exact .swap ..

/-- At every call of a reservation, what was granted is completed, or owed, or about to be released
by this call, each once. -/
theorem Course.account (hc : Course p q (.start p) h φ) (ha : φ.Asks p q c) :
    (granted h).Nodup ∧ (granted h).Perm (completed h ++ φ.owes q ++ c.partOf.toList) := by
  have hb := hc.books
  have completed_eq (hu : φ.unfinished q = []) : completed h = begun h := by
    rw [hc.begun_eq, hu, List.append_nil]
  cases ha with
  | query l =>
    rw [completed_eq rfl, hb.1, hb.2]
    exact ⟨by simp, .rfl⟩
  | permits l cs spare =>
    rw [completed_eq rfl, hb.1, hb.2]
    exact ⟨by simp, .rfl⟩
  | create l spare y rest now =>
    rw [completed_eq rfl, hb.1, hb.2]
    exact ⟨l.nodup, .swap ..⟩
  | giveBack l spare found =>
    rw [completed_eq rfl, hb.1, hb.2]
    exact ⟨l.nodup, .rfl⟩
  | isHeldBy owner found =>
    have hcl : Cleared q (.fair owner) (granted h) (begun h) := hb
    refine ⟨hcl.nodup, ?_⟩
    show (granted h).Perm (completed h ++ [] ++ [.lock q.slot.key owner])
    rw [completed_eq rfl, List.append_nil]
    exact hcl.perm
  | spareUnlock held found =>
    have hcl : Cleared q (.spare held) (granted h) (begun h) := hb
    refine ⟨hcl.nodup, ?_⟩
    show (granted h).Perm (completed h ++ [] ++ [.spareLock held])
    rw [completed_eq rfl, List.append_nil]
    exact hcl.perm
  | unlock owner found =>
    -- This release was begun when the lock was looked at, so the last one begun is not completed.
    obtain ⟨b', hcl, hb'⟩ := hb
    obtain ⟨rfl, -⟩ := List.append_inj' (hc.begun_eq.symm.trans hb') rfl
    refine ⟨hcl.nodup, ?_⟩
    show (granted h).Perm (completed h ++ [] ++ [.lock q.slot.key owner])
    rw [List.append_nil]
    exact hcl.perm
  | _ =>
    rw [completed_eq rfl, hb.1, hb.2]
    exact ⟨.nil, .nil⟩

/-- Once the tasks of a dropped reservation have run, a grant was released once, and none was whose
release was under way when the reservation was dropped. -/
theorem drop_completes (hl : Strand.Leads Release.program ⟨p.reserve q, []⟩ t s)
    (hc : s.call? = some c) (ha : c.isAwaited = true) (ht : List.Forall₂ Ran s.owed ts)
    (hu : u.Perm ts.flatten) :
    (∀ r, c.partOf = some r → r ∈ granted (awaited t)) ∧
    ∀ r, (completed (awaited t ++ awaited u)).count r =
      if r ∈ granted (awaited t) ∧ c.partOf ≠ some r then 1 else 0 := by
  obtain ⟨φ, hφ, hw, -⟩ := reserve_course hl
  obtain ⟨ha, ho⟩ := hw c hc ha
  obtain ⟨hn, hp⟩ := hφ.account ha
  rw [ho] at ht
  have hp' : (granted (awaited t)).Perm
      (completed (awaited t ++ awaited u) ++ c.partOf.toList) := by
    rw [completed_append]
    exact hp.trans (((completed_of_ran ht hu).symm.append_left _).append_right _)
  refine ⟨fun r hr => hp'.mem_iff.2 (by simp [hr]), fun r => ?_⟩
  -- A grant is in the account once, either completed or under way.
  have hcount : (granted (awaited t)).count r =
      (completed (awaited t ++ awaited u)).count r + c.partOf.toList.count r := by
    rw [hp'.count_eq, List.count_append]
  have hpart : c.partOf.toList.count r = if c.partOf = some r then 1 else 0 := by
    cases c.partOf with
    | none => rfl
    | some r' => simp [List.count_singleton]
  rw [hpart] at hcount
  by_cases hr : r ∈ granted (awaited t)
  · rw [List.count_eq_one_of_mem hn hr] at hcount
    by_cases hcr : c.partOf = some r
    · rw [if_neg fun h => h.2 hcr]
      rw [if_pos hcr] at hcount
      omega
    · rw [if_pos ⟨hr, hcr⟩]
      rw [if_neg hcr] at hcount
      omega
  · rw [List.count_eq_zero_of_not_mem hr] at hcount
    rw [if_neg fun h => hr h.1]
    omega

/-- The tasks that the sample leaves behind when it is dropped after `n` nodes. -/
def Sample.releases (n : Nat) : List History :=
  (Sample.run n).2.owed.map fun r => (Strand.play Release.program answer ⟨r.program, []⟩ 2).1

theorem Sample.ran_releases (n : Nat) :
    List.Forall₂ Ran (Sample.run n).2.owed (Sample.releases n) := by
  refine List.forall₂_map_right_iff.2 (List.forall₂_same.2 fun r _ => ?_)
  have : Strand.Leads Release.program _ _ _ :=
    Strand.play_leads (I := collaborators) answer ⟨r.program, []⟩ 2
  cases r <;> exact this

/-- Dropped while the writer is asked, the sample leaves two tasks behind. -/
theorem sample_drop_completes :
    (completed (awaited (Sample.run 11).1 ++ awaited (Sample.releases 11).flatten)).count
      (.permits false Sample.request.slot.key) = 1 ∧
    (completed (awaited (Sample.run 11).1 ++ awaited (Sample.releases 11).flatten)).count
      (.lock Sample.request.slot.key (.ofNat 1)) = 1 := by
  have hc : (Sample.run 11).2.call? =
      some (.create (.take Sample.candidate 5 ⟨.epoch, .midnight⟩)) := by decide +kernel
  have h := (drop_completes (Sample.run_leads 11) hc rfl (Sample.ran_releases 11) .rfl).2
  constructor
  · rw [h, if_pos ⟨by decide +kernel, nofun⟩]
  · rw [h, if_pos ⟨by decide +kernel, nofun⟩]

/-- A release that is under way when the reservation is dropped is not completed by anyone. -/
theorem drop_loses : ¬ ∀ (p : Policy) (q : Request) (t u : History) (c : Call) (ts : List History)
    (s : Strand collaborators Release (Except AdmissionError Reservation)),
    Strand.Leads Release.program ⟨p.reserve q, []⟩ t s → s.call? = some c → c.isAwaited = true →
    List.Forall₂ Ran s.owed ts → u.Perm ts.flatten →
    ∀ r ∈ granted (awaited t), (completed (awaited t ++ awaited u)).count r = 1 := by
  intro h
  let lock : Release := .lock Sample.request.slot.key (.ofNat 1)
  have hc : (Sample.run 15).2.call? = some (.isHeldBy Sample.request.slot.key (.ofNat 1)) := by
    decide +kernel
  have hn : Sample.releases 15 = [] := by decide +kernel
  have hl : (completed (awaited (Sample.run 15).1)).count lock = 0 := by decide +kernel
  have := h _ _ _ [] _ _ _ (Sample.run_leads 15) hc rfl (Sample.ran_releases 15) (by rw [hn]; rfl)
    lock (by decide +kernel)
  rw [awaited_nil, List.append_nil, hl] at this
  exact absurd this (by decide)

end

end Turnstile.Admission
