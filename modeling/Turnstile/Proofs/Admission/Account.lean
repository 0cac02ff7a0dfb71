import Turnstile.Proofs.Admission.Course

/-!
# The account of a reservation

What a reservation was granted and what became of it, read off its history: `granted`, the releases
that were `begun`, and those that were `completed`. `Course.books` says how the account stands in
each phase. A release of a fair lock takes two calls, so it may be begun and not completed; it is
the only one, and only while the lock is being unlocked (`Course.begun_eq`).
-/

namespace Turnstile.Admission

namespace Call

/-- What the answer to a call grants. -/
def obtained : (c : Call) → c.Answer → Option Release
  | lock key owner _, .ok true => some (.lock key owner)
  | spareLock _ _, .ok (some held) => some (.spareLock held)
  | permits spare key _ _, .ok true => some (.permits spare key)
  | _, _ => none

/-- The release that a call begins. -/
def begins : Call → Option Release
  | isHeldBy key owner => some (.lock key owner)
  | spareUnlock held => some (.spareLock held)
  | giveBack spare key => some (.permits spare key)
  | _ => none

/-- The release that is done once the call is answered; a fair lock that is still held has yet to be
unlocked. -/
def completes : (c : Call) → c.Answer → Option Release
  | isHeldBy _ _, .ok true => none
  | isHeldBy key owner, _ => some (.lock key owner)
  | unlock key owner, _ => some (.lock key owner)
  | spareUnlock held, _ => some (.spareLock held)
  | giveBack spare key, _ => some (.permits spare key)
  | _, _ => none

/-- The release that a call is part of. -/
def partOf : Call → Option Release
  | isHeldBy key owner => some (.lock key owner)
  | unlock key owner => some (.lock key owner)
  | spareUnlock held => some (.spareLock held)
  | giveBack spare key => some (.permits spare key)
  | _ => none

theorem obtained_lock {key : SlotKey} {owner : Ulid} {wait : Duration}
    {a : Except GuardError Bool} (ha : a ≠ .ok true) : (lock key owner wait).obtained a = none := by
  rcases a with e | _ | _
  · rfl
  · rfl
  · exact absurd rfl ha

theorem obtained_spareLock {key : SlotKey} {wait : Duration} {a : Except GuardError (Option Held)}
    (ha : ∀ held, a ≠ .ok (some held)) : (spareLock key wait).obtained a = none := by
  rcases a with e | _ | held
  · rfl
  · rfl
  · exact absurd rfl (ha held)

theorem obtained_permits {spare : Bool} {key : SlotKey} {plan : PoolPlan} {demand : PoolDemand}
    {a : Except GuardError Bool} (ha : a ≠ .ok true) :
    (permits spare key plan demand).obtained a = none := by
  rcases a with e | _ | _
  · rfl
  · rfl
  · exact absurd rfl ha

theorem completes_isHeldBy {key : SlotKey} {owner : Ulid} {a : Except GuardError Bool}
    (ha : a ≠ .ok true) : (isHeldBy key owner).completes a = some (.lock key owner) := by
  rcases a with e | _ | _
  · rfl
  · rfl
  · exact absurd rfl ha

end Call

/-- What was granted, oldest first. -/
def granted (h : History) : List Release := h.filterMap fun e => e.call.obtained e.answer

/-- The releases that were begun, oldest first. -/
def begun (h : History) : List Release := h.filterMap fun e => e.call.begins

/-- The releases that ran to their end, oldest first. -/
def completed (h : History) : List Release := h.filterMap fun e => e.call.completes e.answer

section

variable {p : Policy} {q : Request} {h h' : History} {φ ψ : Phase} {c : Call} {a : c.Answer}
  {g b : List Release}

@[simp] theorem granted_nil : granted [] = [] := rfl
@[simp] theorem begun_nil : begun [] = [] := rfl
@[simp] theorem completed_nil : completed [] = [] := rfl

@[simp] theorem granted_snoc : granted (h ++ [⟨c, a⟩]) = granted h ++ (c.obtained a).toList := by
  simp only [granted, List.filterMap_append, List.filterMap_cons, List.filterMap_nil]
  cases c.obtained a <;> rfl

@[simp] theorem begun_snoc : begun (h ++ [⟨c, a⟩]) = begun h ++ c.begins.toList := by
  simp only [begun, List.filterMap_append, List.filterMap_cons, List.filterMap_nil]
  cases c.begins <;> rfl

@[simp] theorem completed_snoc :
    completed (h ++ [⟨c, a⟩]) = completed h ++ (c.completes a).toList := by
  simp only [completed, List.filterMap_append, List.filterMap_cons, List.filterMap_nil]
  cases c.completes a <;> rfl

@[simp] theorem completed_append : completed (h ++ h') = completed h ++ completed h' :=
  List.filterMap_append ..

theorem partOf_eq_none {e : Asked collaborators} (hb : begun h = []) (hc : completed h = [])
    (he : e ∈ h) : e.call.partOf = none := by
  have h₁ := List.filterMap_eq_nil_iff.1 hb e he
  have h₂ := List.filterMap_eq_nil_iff.1 hc e he
  obtain ⟨c, a⟩ := e
  cases c with
  | isHeldBy => exact absurd h₁ (by simp [Call.begins])
  | spareUnlock => exact absurd h₁ (by simp [Call.begins])
  | giveBack => exact absurd h₁ (by simp [Call.begins])
  | unlock => exact absurd h₂ (by simp [Call.completes])
  | _ => rfl

/-- Under the lock `l` everything is given back but the lock itself. -/
def Cleared (q : Request) (l : Hold) (g b : List Release) : Prop :=
  g = [l.release q] ∧ b = [] ∨
    ∃ spare, g = [l.release q, .permits spare q.slot.key] ∧ b = [.permits spare q.slot.key]

/-- How the account of a reservation stands: `g` was granted and the releases `b` were begun. -/
def Phase.Books (q : Request) (g b : List Release) : Phase → Prop
  | locked l => g = [l.release q] ∧ b = []
  | pooling l _ _ => g = [l.release q] ∧ b = []
  | walking l spare _ => g = [l.release q, .permits spare q.slot.key] ∧ b = []
  | walked l spare _ => g = [l.release q, .permits spare q.slot.key] ∧ b = []
  | leaving l _ => Cleared q l g b
  | unlocking owner _ => ∃ b', Cleared q (.fair owner) g b' ∧ b = b' ++ [.lock q.slot.key owner]
  | ended _ => g = [] ∧ b = [] ∨ ∃ l b', Cleared q l g b' ∧ b = b' ++ [l.release q]
  | _ => g = [] ∧ b = []

/-- The release of a lock that was begun and is not completed. -/
def Phase.unfinished (q : Request) : Phase → List Release
  | unlocking owner _ => [.lock q.slot.key owner]
  | _ => []

theorem Phase.books_offer {l : Hold} {spare : Bool} {rest : List Candidate} :
    (offer l spare rest).Books q g b ↔
      g = [l.release q, .permits spare q.slot.key] ∧ b = [] := by
  cases rest <;> rfl

theorem Phase.unfinished_offer {l : Hold} {spare : Bool} {rest : List Candidate} :
    (offer l spare rest).unfinished q = [] := by
  cases rest <;> rfl

namespace Phase.Moves

theorem books (hm : φ.Moves p q c a ψ) (hb : φ.Books q g b) :
    ψ.Books q (g ++ (c.obtained a).toList) (b ++ c.begins.toList) := by
  cases hm with
  | enabled _ => obtain ⟨rfl, rfl⟩ := hb; exact ⟨rfl, rfl⟩
  | disabled => obtain ⟨rfl, rfl⟩ := hb; exact .inl ⟨rfl, rfl⟩
  | rated spare => obtain ⟨rfl, rfl⟩ := hb; exact ⟨rfl, rfl⟩
  | rateFallsBack _ => obtain ⟨rfl, rfl⟩ := hb; exact ⟨rfl, rfl⟩
  | rateFails spare e _ => obtain ⟨rfl, rfl⟩ := hb; exact .inl ⟨rfl, rfl⟩
  | locks owner => obtain ⟨rfl, rfl⟩ := hb; exact ⟨rfl, rfl⟩
  | lockFallsBack owner _ => obtain ⟨rfl, rfl⟩ := hb; exact ⟨rfl, rfl⟩
  | lockFails owner e ha =>
    obtain ⟨rfl, rfl⟩ := hb
    rw [Call.obtained_lock (Policy.ne_of_stop? ha rfl)]
    exact .inl ⟨rfl, rfl⟩
  | spareLocks held => obtain ⟨rfl, rfl⟩ := hb; exact ⟨rfl, rfl⟩
  | spareLockFails e ha =>
    obtain ⟨rfl, rfl⟩ := hb
    rw [Call.obtained_spareLock fun _ => Policy.ne_of_stop? ha rfl]
    exact .inl ⟨rfl, rfl⟩
  | finds l c cs => obtain ⟨rfl, rfl⟩ := hb; exact ⟨rfl, rfl⟩
  | findsNone l e _ => obtain ⟨rfl, rfl⟩ := hb; exact .inl ⟨rfl, rfl⟩
  | admits l cs spare => obtain ⟨rfl, rfl⟩ := hb; exact books_offer.2 ⟨rfl, rfl⟩
  | permitsFallBack l cs _ => obtain ⟨rfl, rfl⟩ := hb; exact ⟨rfl, rfl⟩
  | permitsFail l cs spare e ha =>
    obtain ⟨rfl, rfl⟩ := hb
    rw [Call.obtained_permits (Policy.ne_of_stop? ha rfl)]
    exact .inl ⟨rfl, rfl⟩
  | takes l spare c rest now id => obtain ⟨rfl, rfl⟩ := hb; exact ⟨rfl, rfl⟩
  | passes l spare c rest now => obtain ⟨rfl, rfl⟩ := hb; exact books_offer.2 ⟨rfl, rfl⟩
  | breaks l spare c rest now e => obtain ⟨rfl, rfl⟩ := hb; exact ⟨rfl, rfl⟩
  | givesBack l spare found _ => obtain ⟨rfl, rfl⟩ := hb; exact .inr ⟨spare, rfl, rfl⟩
  | holds owner found => exact ⟨b, by simpa [Books, Call.obtained] using hb, rfl⟩
  | holdsNot owner found _ =>
    exact .inr ⟨.fair owner, b, by simpa [Books, Call.obtained] using hb, rfl⟩
  | spareUnlocks held found _ =>
    exact .inr ⟨.spare held, b, by simpa [Books, Call.obtained] using hb, rfl⟩
  | unlocks owner found _ =>
    obtain ⟨b', hb', rfl⟩ := hb
    exact .inr ⟨.fair owner, b', by simpa [Call.obtained] using hb', List.append_nil _⟩

/-- A release that is begun is completed at once, unless it is that of a fair lock that is held. -/
theorem unfinished (hm : φ.Moves p q c a ψ) :
    φ.unfinished q ++ c.begins.toList = (c.completes a).toList ++ ψ.unfinished q := by
  cases hm with
  | admits l cs spare => rw [unfinished_offer]; rfl
  | passes l spare c rest now => rw [unfinished_offer]; rfl
  | holdsNot owner found ha => rw [Call.completes_isHeldBy ha]; rfl
  | _ => rfl

end Phase.Moves

theorem Course.books (hc : Course p q (.start p) h φ) : φ.Books q (granted h) (begun h) := by
  induction hc with
  | here => unfold Phase.start; split <;> exact ⟨rfl, rfl⟩
  | ask a _ ha ih => rw [granted_snoc, begun_snoc]; exact (ha.moves a).books ih

theorem Course.begun_eq (hc : Course p q (.start p) h φ) :
    begun h = completed h ++ φ.unfinished q := by
  induction hc with
  | here => unfold Phase.start; split <;> rfl
  | ask a _ ha ih =>
    rw [begun_snoc, completed_snoc, ih, List.append_assoc, (ha.moves a).unfinished,
      List.append_assoc]

end

end Turnstile.Admission
