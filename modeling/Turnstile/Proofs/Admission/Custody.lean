import Turnstile.Proofs.Admission.Serial

/-!
# In whose hands a lock is

A lock that was granted is in the hands of the reservation that asked for it, until that lets go of
it or is dropped, and then in the hands of the task that releases it. `Task.keeps?` says what a
thread has in its hands after the calls that it made, and `Deal` lists all that one more call has to
do with that (`Task.deal`).
-/

namespace Turnstile.Admission

/-- The lock that a call asks for: the fair lock or its substitute. -/
def Call.tier? : Call → Option Bool
  | lock _ _ _ => some false
  | spareLock _ _ => some true
  | _ => none

/-- The call may turn a lock over. -/
def Call.turns : Call → Bool
  | lock _ _ _ => true
  | unlock _ _ => true
  | spareLock _ _ => true
  | spareUnlock _ => true
  | _ => false

/-- The lock that is to be released. -/
def Release.tier? : Release → Option Bool
  | lock _ _ => some false
  | spareLock _ => some true
  | permits _ _ => none

/-- What is left to do of a release after the calls of its task. -/
def Release.left? (r : Release) : History → Option Release
  | [] => some r
  | [⟨.isHeldBy _ _, .ok true⟩] => some r
  | _ => none

/-- What a thread has to release after the calls `h`, if it was granted a lock. -/
def Task.keeps? : Task → History → Option Release
  | reserve p q, h => (Phase.along p q h).hold?.map (Hold.release q)
  | release r, h => r.left? h

/-- All that a call has to do with the locks, by what the thread had to release before and after it
was answered. -/
inductive Deal : Task → (c : Call) → c.Answer → Option Release → Option Release → Prop
  | knocks {p : Policy} {q : Request} {c : Call} {a : c.Answer} (spare : Bool) :
    c.tier? = some spare → (Phase.door spare).Asks p q c →
    Deal (.reserve p q) c a none (((Phase.door spare).next p q c a).hold?.map (Hold.release q))
  | unlocks (k : Task) (key : SlotKey) (owner : Ulid) (a : Except GuardError Bool) :
    Deal k (.unlock key owner) a (some (.lock key owner)) none
  | spareUnlocks (k : Task) (held : Held) (a : Except GuardError Unit) :
    Deal k (.spareUnlock held) a (some (.spareLock held)) none
  | goesOn {k : Task} {c : Call} {a : c.Answer} {x y : Option Release} : c.turns = false →
    (∀ r, y = some r → x = some r) → Deal k c a x y

section

variable {p : Policy} {q : Request} {h : History} {φ ψ : Phase} {c : Call} {a : c.Answer} {l : Hold}

theorem Hold.tier?_release : (l.release q).tier? = some l.isSpare := by
  cases l <;> rfl

theorem Phase.hold?_offer {spare : Bool} {rest : List Candidate} :
    (offer l spare rest).hold? = some l := by
  cases rest <;> rfl

/-- Who has a lock has had it before, or was granted it now. -/
theorem Phase.Moves.hold? (hm : φ.Moves p q c a ψ) (hl : ψ.hold? = some l) :
    φ.hold? = some l ∧ c.locks a = false ∨
      φ.hold? = none ∧ c.locks a = true ∧ c.tier? = some l.isSpare := by
  cases hm with
  | locks owner => cases hl; exact .inr ⟨rfl, rfl, rfl⟩
  | spareLocks held => cases hl; exact .inr ⟨rfl, rfl, rfl⟩
  | admits l' cs spare => exact .inl ⟨hold?_offer.symm.trans hl, rfl⟩
  | passes l' spare c rest now => exact .inl ⟨hold?_offer.symm.trans hl, rfl⟩
  | finds => exact .inl ⟨hl, rfl⟩
  | findsNone => exact .inl ⟨hl, rfl⟩
  | permitsFallBack => exact .inl ⟨hl, rfl⟩
  | permitsFail => exact .inl ⟨hl, rfl⟩
  | takes => exact .inl ⟨hl, rfl⟩
  | breaks => exact .inl ⟨hl, rfl⟩
  | givesBack => exact .inl ⟨hl, rfl⟩
  | holds => exact .inl ⟨hl, rfl⟩
  | _ => cases hl

/-- A call that is due asks for a lock at its door, or lets go of the lock that is held, or leaves
the locks alone. -/
theorem Phase.Asks.deal (ha : φ.Asks p q c) (a : c.Answer) :
    Deal (.reserve p q) c a (φ.hold?.map (Hold.release q))
      ((φ.next p q c a).hold?.map (Hold.release q)) := by
  have hkeep (hc : c.turns = false) (ht : c.tier? = none) : Deal (.reserve p q) c a
      (φ.hold?.map (Hold.release q)) ((φ.next p q c a).hold?.map (Hold.release q)) := by
    refine .goesOn hc fun r hr => ?_
    obtain ⟨l, hl, rfl⟩ := Option.map_eq_some_iff.1 hr
    rcases (ha.moves a).hold? hl with ⟨hφ, -⟩ | ⟨-, -, hn⟩
    · rw [hφ]
      rfl
    · rw [ht] at hn
      cases hn
  cases ha with
  | lock owner => exact .knocks false rfl (.lock owner)
  | spareLock => exact .knocks true rfl .spareLock
  | spareUnlock held found => exact .spareUnlocks _ held a
  | unlock owner found => exact .unlocks _ q.slot.key owner a
  | _ => exact hkeep rfl rfl

/-- Whoever has something to release after asking at a door was granted that lock. -/
theorem Phase.Asks.granted {spare : Bool} {r : Release} (ha : (Phase.door spare).Asks p q c)
    (hb : c.tier? = some spare)
    (hr : ((Phase.door spare).next p q c a).hold?.map (Hold.release q) = some r) :
    c.locks a = true ∧ r.tier? = some spare := by
  obtain ⟨l, hl, rfl⟩ := Option.map_eq_some_iff.1 hr
  rcases (ha.moves a).hold? hl with ⟨hn, -⟩ | ⟨-, hg, hb'⟩
  · cases spare <;> cases hn
  · exact ⟨hg, Hold.tier?_release.trans (hb'.symm.trans hb)⟩

/-! ### The task of a release -/

/-- From the calls `h` on, the task of a release deals with the locks as it should, and owes nothing
itself. -/
abbrev Release.Deals (r : Release) (h : History) (s : Strand collaborators Release Unit) : Prop :=
  Strand.Always Release.program (fun h e => h ++ [e])
    (fun h owed c => owed = [] ∧
      ∀ a, Deal (.release r) c a (r.left? h) (r.left? (h ++ [⟨c, a⟩])))
    (fun _ _ _ => True) h s

theorem Release.deals (r : Release) : r.Deals [] ⟨r.program, []⟩ := by
  have note {guard : GuardName} {ε : Type} (answer : Except ε Bool) (e : Asked collaborators)
      (t : History) (ht : ∀ a, r.left? (e :: t ++ [⟨.note (.releaseFailed guard), a⟩]) = none) :
      r.Deals (e :: t) ⟨noteFailure guard answer, []⟩ := by
    cases answer with
    | ok b => exact .done trivial
    | error e' =>
      refine .call ⟨rfl, fun a => .goesOn rfl fun r' hr' => ?_⟩ fun a => .done trivial
      rw [ht a] at hr'
      cases hr'
  cases r with
  | lock key owner =>
    refine .call ⟨rfl, fun a => .goesOn rfl fun r' hr' => ?_⟩ fun a => ?_
    · rcases a with e | _ | _
      · cases hr'
      · cases hr'
      · exact hr'
    · rcases a with e | _ | _
      · exact note _ _ _ fun _ => rfl
      · exact .done trivial
      · exact .call ⟨rfl, fun a => .unlocks _ key owner a⟩ fun a => note _ _ _ fun _ => rfl
  | spareLock held =>
    exact .call ⟨rfl, fun a => .spareUnlocks _ held a⟩ fun a => note _ _ _ fun _ => rfl
  | permits spare key =>
    refine .call ⟨rfl, fun a => .goesOn rfl fun r' hr' => ?_⟩ fun a => note _ _ _ fun _ => rfl
    cases hr'

end

namespace Task

variable {k : Task} {h : History} {s : Strand collaborators Release k.Result} {c : Call}

theorem foldl_snoc (t h : History) : t.foldl (fun h e => h ++ [e]) h = h ++ t := by
  induction t generalizing h with
  | nil => exact (List.append_nil h).symm
  | cons e t ih => rw [List.foldl_cons, ih, List.append_assoc, List.singleton_append]

/-- What the next call of a thread has to do with the locks. -/
theorem deal (hl : Strand.Leads Release.program ⟨k.code, []⟩ h s) (hc : s.call? = some c)
    (a : c.Answer) : Deal k c a (k.keeps? h) (k.keeps? (h ++ [⟨c, a⟩])) := by
  cases k with
  | release r =>
    have := ((r.deals.leads hl).ok_of_call hc).2 a
    rwa [foldl_snoc, List.nil_append] at this
  | reserve p q =>
    show Deal _ c a _ ((Phase.along p q (h ++ [⟨c, a⟩])).hold?.map _)
    rw [along_snoc]
    by_cases ha : c.isAwaited = true
    · have hnext : (Phase.along p q h).advance p q ⟨c, a⟩ = (Phase.along p q h).next p q c a :=
        if_pos ha
      rw [hnext]
      exact ((reserve_along hl).2.1 c hc ha).1.deal a
    · have hstay : (Phase.along p q h).advance p q ⟨c, a⟩ = Phase.along p q h := if_neg ha
      rw [hstay]
      refine .goesOn ?_ fun r hr => hr
      cases c <;> first | rfl | exact absurd rfl ha

/-- Only a reservation asks for a lock, and with empty hands. -/
theorem knocks {spare : Bool} (hl : Strand.Leads Release.program ⟨k.code, []⟩ h s)
    (hc : s.call? = some c) (hb : c.tier? = some spare) :
    ∃ p q, k = .reserve p q ∧ (Phase.door spare).Asks p q c ∧ k.keeps? h = none := by
  have hdeal {a : c.Answer} (hturns : c.turns = true) {x y : Option Release}
      (hd : Deal k c a x y) (hx : k.keeps? h = x) :
      ∃ p q, k = .reserve p q ∧ (Phase.door spare).Asks p q c ∧ k.keeps? h = none := by
    cases hd with
    | knocks b hb' ha =>
      cases hb.symm.trans hb'
      exact ⟨_, _, rfl, ha, hx⟩
    | goesOn hn _ => cases hturns.symm.trans hn
    | _ => cases hb
  cases c with
  | lock key owner wait => exact hdeal rfl (deal hl hc (.ok false)) rfl
  | spareLock key wait => exact hdeal rfl (deal hl hc (.ok none)) rfl
  | _ => cases hb

/-- What a thread that waits owes is what it has in its hands, and permits. -/
theorem owed (hl : Strand.Leads Release.program ⟨k.code, []⟩ h s) (hc : s.call? = some c)
    (ha : c.isAwaited = true) :
    s.owed = [] ∨
      ∃ rs r, s.owed = rs ++ [r] ∧ k.keeps? h = some r ∧ ∀ r' ∈ rs, r'.tier? = none := by
  cases k with
  | release r => exact .inl ((r.deals.leads hl).ok_of_call hc).1
  | reserve p q =>
    rw [((reserve_along hl).2.1 c hc ha).2]
    show _ ∨ ∃ rs r, _ ∧ (Phase.along p q h).hold?.map (Hold.release q) = some r ∧ _
    cases Phase.along p q h with
    | locked l => exact .inr ⟨[], l.release q, rfl, rfl, nofun⟩
    | pooling l cs b => exact .inr ⟨[], l.release q, rfl, rfl, nofun⟩
    | walked l b found => exact .inr ⟨[], l.release q, rfl, rfl, nofun⟩
    | walking l b rest => exact .inr ⟨[.permits b q.slot.key], l.release q, rfl, rfl, by simp [Release.tier?]⟩
    | _ => exact .inl rfl

end Task

/-! ## What the calls tell -/

/-- The lock of one tier was granted and has not been let go. -/
def holdsTier (spare : Bool) (h : History) : Bool :=
  (h.any fun e => e.call.locks e.answer && e.call.tier? == some spare) &&
    !h.any fun e => e.call.unlocks e.answer

section

variable {p : Policy} {q : Request} {h : History} {φ : Phase}

/-- Every grant in the history is one of the lock that is held. -/
theorem Course.tier (hc : Course p q (.start p) h φ) {l : Hold} (hl : φ.hold? = some l) :
    ∀ e ∈ h, e.call.locks e.answer = true → e.call.tier? = some l.isSpare := by
  induction hc generalizing l with
  | here => exact List.forall_mem_nil _
  | @ask h φ c a hc ha ih =>
    intro e he hg
    rcases (ha.moves a).hold? hl with ⟨hφ, hn⟩ | ⟨hφ, -, ht⟩
    · rcases List.mem_append.1 he with he | he
      · exact ih hφ e he hg
      · rw [List.mem_singleton.1 he] at hg
        exact absurd (hn.symm.trans hg) nofun
    · rcases List.mem_append.1 he with he | he
      · -- nothing was granted before, for the lock was asked for now
        have hf := hc.locks.fresh (by rw [hφ]; rfl) fun r => (ha.moves a).not_ended
        exact absurd hg (List.any_eq_false.1 hf.1 e he)
      · rw [List.mem_singleton.1 he]
        exact ht

/-- The calls of a reservation tell which lock it has. -/
theorem reserve_holdsTier {t : History}
    {s : Strand collaborators Release (Except AdmissionError Reservation)}
    (hl : Strand.Leads Release.program ⟨p.reserve q, []⟩ t s) (spare : Bool) :
    holdsTier spare t = true ↔ ∃ l, (Phase.along p q t).hold? = some l ∧ l.isSpare = spare := by
  have hlock := reserve_holdsLock hl
  have htier {l : Hold} (hh : (Phase.along p q t).hold? = some l) (e : Asked collaborators)
      (he : e ∈ t) (hg : e.call.locks e.answer = true) : e.call.tier? = some l.isSpare := by
    refine (reserve_along hl).1.tier hh e (List.mem_filter.2 ⟨he, ?_⟩) hg
    obtain ⟨c, a⟩ := e
    cases c <;> first | rfl | cases hg
  unfold holdsTier
  unfold holdsLock at hlock
  simp only [Bool.and_eq_true, List.any_eq_true, beq_iff_eq]
  constructor
  · rintro ⟨⟨e, he, hg, ht⟩, hu⟩
    rw [hu, Bool.and_true, List.any_eq_true.2 ⟨e, he, hg⟩] at hlock
    obtain ⟨l, hh⟩ := Option.isSome_iff_exists.1 hlock.symm
    exact ⟨l, hh, Option.some.inj ((htier hh e he hg).symm.trans ht)⟩
  · rintro ⟨l, hh, rfl⟩
    rw [hh, Option.isSome_some, Bool.and_eq_true, List.any_eq_true] at hlock
    obtain ⟨⟨e, he, hg⟩, hu⟩ := hlock
    exact ⟨⟨e, he, hg, htier hh e he hg⟩, hu⟩

end

end Turnstile.Admission
