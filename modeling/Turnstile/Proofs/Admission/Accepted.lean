import Turnstile.Proofs.Admission.Hands
import Turnstile.Proofs.Local.Deadlines
import Turnstile.Proofs.Settings

/-!
# Good input is accepted

Controllers whose settings were read from variables reserve at the guards of one local store. None
of their reservations ends with the report that its input was invalid or that the infrastructure
was unavailable, whatever the variables hold and whoever else is there (`reach_accepted`).

Three things come together. A store answers an attempt with an error only if its check fails
(`look_heeds`), so that every answer in the log of a crowd is one to bad input or no error
(`Reach.heeded`). In each phase a reservation asks with good input: its waits and its plan were read
within the limits, the key of a slot is short enough, and the number of candidates was cut down to
what a pool may hold (`Asks.not_fails`). And an error that is not a guard's is another one's to
report (`Asks.isBlameless`).
-/

namespace Turnstile

/-- The error is laid on the guards: they failed, or they took the input to be bad. -/
def AdmissionError.BlamesGuard : AdmissionError → Prop
  | infrastructureUnavailable _ => True
  | invalid _ => True
  | _ => False

namespace Admission

variable {E : Surroundings}

/-- What a call asks of the guards of a store, if it may have to wait for it. -/
def Call.attempt? : Call → Option Local.Attempt
  | rate false key wait plan => some (.token key.text wait plan)
  | lock key owner wait => some (.lock key.text owner wait)
  | permits false key plan demand => some (.permits key.text plan demand)
  | _ => none

/-- A guard was asked for something and failed. -/
def Call.fails : (c : Call) → c.Answer → Prop
  | rate _ _ _ _, a => ∃ e, a = .error e
  | lock _ _ _, a => ∃ e, a = .error e
  | spareLock _ _, a => ∃ e, a = .error e
  | permits _ _ _ _, a => ∃ e, a = .error e
  | _, _ => False

/-- If the call asks with good input, then it does not fail. -/
def Heeds (c : Call) (a : c.Answer) : Prop :=
  ∀ x, c.attempt? = some x → x.check = .ok () → ¬ c.fails a

namespace Hall

variable {h : Hall E} {now : Nat} {t : Ticket} {c : Call} {v : Option (Waiting E)}

theorem attempt_ne_error {x : Local.Attempt} {w? : Option Local.Waiting} {e : GuardError}
    (hx : x.check = .ok ()) : (h.attempt now t x w?).2.2 ≠ .answered (.error e) := by
  have hfine : ∀ p : Local.Progress, p.IsFine →
      (settle t p : Look _ (Pending E)) ≠ .answered (.error e) := by
    intro p hp he
    cases p with
    | waiting w => cases he
    | done o =>
      cases o with
      | ok g => cases he
      | error e' => exact hp e' rfl
  cases w? with
  | none => exact hfine _ (Local.Store.begin_isFine hx)
  | some w => exact hfine _ Local.Store.resume_isFine

/-- A look at a call, the first one or a later one. -/
theorem look_heeds {a : c.Answer} (ha : (h.look now t c v).2.2 = .answered a) : Heeds c a := by
  intro x hx hok hfails
  cases c with
  | rate spare key wait plan =>
    cases spare with
    | true => cases hx
    | false =>
      cases hx
      obtain ⟨e, rfl⟩ := hfails
      exact attempt_ne_error hok ha
  | lock key owner wait =>
    cases hx
    obtain ⟨e, rfl⟩ := hfails
    exact attempt_ne_error hok ha
  | permits spare key plan demand =>
    cases spare with
    | true => cases hx
    | false =>
      cases hx
      obtain ⟨e, rfl⟩ := hfails
      exact attempt_ne_error hok ha
  | _ => cases hx

end Hall

/-! ## Reservations -/

/-- No guard is blamed for the failure, if it is one. -/
def Blameless {α : Type} (r : Except AdmissionError α) : Prop := ∀ e, r = .error e → ¬ e.BlamesGuard

section

variable {α : Type} {settings : Settings} {hasFlags hasPublisher refused : Bool} {q : Request}
  {φ : Phase} {c : Call} {found : Found} {l : Hold} {rest : List Candidate} {p : Policy}

theorem blameless_ok {x : α} : Blameless (.ok x) := fun _ => nofun

theorem blameless_error {e : AdmissionError} (he : ¬ e.BlamesGuard) :
    Blameless (.error e : Except AdmissionError α) := by
  rintro e ⟨⟩
  exact he

theorem verdict_blameless {owner : Ulid} (h : Blameless found) :
    Blameless (verdict q found (.fair owner)) := by
  cases found with
  | ok x => exact blameless_ok
  | error e => exact blameless_error (h e rfl)

namespace Phase

/-- What was found and is to be returned blames no guard. -/
def IsBlameless : Phase → Prop
  | walked _ _ found => Blameless found
  | leaving _ found => Blameless found
  | unlocking _ found => Blameless found
  | ended r => Blameless r
  | _ => True

theorem offer_isBlameless : (offer l false rest).IsBlameless := by
  cases rest with
  | nil => exact blameless_error id
  | cons c rest => exact trivial

theorem token_check (hs : settings.WithinLimits) :
    (Local.Attempt.token q.slot.key.text settings.rateWait settings.rate).check = .ok () := by
  show (do Limits.checkKey q.slot.key.text; Limits.checkWait settings.rateWait
           Limits.checkRate settings.rate) = _
  rw [Slot.checkKey_key, hs.rateWait, hs.rate]
  rfl

theorem lock_check {owner : Ulid} (hs : settings.WithinLimits) :
    (Local.Attempt.lock q.slot.key.text owner settings.lockWait).check = .ok () := by
  show (do Limits.checkKey q.slot.key.text; Limits.checkWait settings.lockWait) = _
  rw [Slot.checkKey_key, hs.lockWait]
  rfl

theorem permits_check {cs : List Candidate} (hs : settings.WithinLimits) (hcs : cs ≠ []) :
    (Local.Attempt.permits q.slot.key.text
      (poolPlan (.plain settings hasFlags hasPublisher) cs)
      (poolDemand (.plain settings hasFlags hasPublisher) cs)).check = .ok () := by
  show (do Limits.checkKey q.slot.key.text; Limits.checkWait settings.permitWait
           Limits.checkPermits (Policy.permitCount cs) (Policy.permitCount cs)) = _
  rw [Slot.checkKey_key, hs.permitWait, checkPermits_permitCount hcs]
  rfl

/-- A reservation asks the guards with good input, and asks no substitute. -/
theorem Asks.not_fails {a : c.Answer} (hs : settings.WithinLimits)
    (ha : φ.Asks (.plain settings hasFlags hasPublisher) q c) (hφ : φ.Plain refused)
    (hh : Heeds c a) : ¬ c.fails a := by
  cases ha with
  | rate spare =>
    obtain rfl : spare = false := hφ
    exact hh _ rfl (token_check hs)
  | lock owner => exact hh _ rfl (lock_check hs)
  | spareLock => exact absurd hφ id
  | permits l cs spare =>
    obtain ⟨-, rfl, hcs⟩ := hφ
    exact hh _ rfl (permits_check hs hcs)
  | _ => exact id

/-- As long as no guard fails, no guard is blamed. The permits, the lock and the flag may be
refused, and the query and the writer may fail. -/
theorem Asks.isBlameless {a : c.Answer} (ha : φ.Asks p q c) (hφ : φ.Plain refused)
    (hb : φ.IsBlameless) (hf : ¬ c.fails a) : (φ.next p q c a).IsBlameless := by
  cases ha with
  | flag =>
    rcases a with e | _ | _
    · exact trivial
    · exact blameless_error id
    · exact trivial
  | rate spare =>
    rcases a with e | _ | _
    · exact absurd ⟨e, rfl⟩ hf
    · exact blameless_error id
    · exact trivial
  | lock owner =>
    rcases a with e | _ | _
    · exact absurd ⟨e, rfl⟩ hf
    · exact blameless_error id
    · exact trivial
  | spareLock => exact absurd hφ id
  | query l =>
    rcases a with e | _ | ⟨c, cs⟩
    · exact blameless_error id
    · exact blameless_error id
    · exact trivial
  | permits l cs spare =>
    obtain ⟨-, rfl, -⟩ := hφ
    rcases a with e | _ | _
    · exact absurd ⟨e, rfl⟩ hf
    · exact blameless_error id
    · exact offer_isBlameless
  | create l spare c rest now =>
    obtain ⟨-, rfl⟩ := hφ
    rcases a with e | _ | id
    · exact blameless_error id
    · exact offer_isBlameless
    · exact blameless_ok
  | giveBack l spare found => exact hb
  | isHeldBy owner found =>
    rcases a with e | _ | _
    · exact verdict_blameless hb
    · exact verdict_blameless hb
    · exact hb
  | spareUnlock held found => cases hφ.1
  | unlock owner found => exact verdict_blameless hb

end Phase

/-- The induction is on the calls that were awaited; no substitute is asked in any phase. -/
theorem Course.isBlameless {h : History} (hs : settings.WithinLimits)
    (hc : Course (.plain settings hasFlags hasPublisher) q
      (.start (.plain settings hasFlags hasPublisher)) h φ)
    (hh : ∀ e ∈ h, Heeds e.call e.answer) : (∃ refused, φ.Plain refused) ∧ φ.IsBlameless := by
  induction hc with
  | here =>
    cases hasFlags with
    | false => exact ⟨⟨false, rfl⟩, trivial⟩
    | true => exact ⟨⟨false, trivial⟩, trivial⟩
  | @ask h ψ c a _ ha ih =>
    obtain ⟨⟨refused, hφ⟩, hb⟩ := ih fun e he => hh e (List.mem_append_left _ he)
    obtain ⟨refused', -, hnext⟩ := (ha.careful hφ).2 a
    have hheeds : Heeds c a := hh ⟨c, a⟩ (List.mem_append_right _ (List.mem_singleton_self _))
    exact ⟨⟨refused', hnext⟩, ha.isBlameless hφ hb (ha.not_fails hs hφ hheeds)⟩

end

/-! ## Crowds in a hall -/

/-- Reservations by any number of controllers, each with settings that were read from variables of
its own. They are looked at at any times, and in between anything may happen to the store and to
everybody else, also when a reservation is dropped. -/
abbrev Office.hall (E : Surroundings) : Office where
  State := Hall E
  Pending := Hall.Pending E
  Looks h c v h' look := ∃ now t, (∀ x ∈ v, x.1 = t) ∧ h' = (h.look now t c (v.map (·.2))).1 ∧
    look = (h.look now t c (v.map (·.2))).2.2
  Drops _ _ _ := True
  Stirs _ _ := True
  Opens p _ := ∃ lookup hasFlags hasPublisher,
    p = .plain (Settings.ofLookup lookup) hasFlags hasPublisher

section

variable {σ : Hall E} {w w' : Crowd (.hall E)} {th : Thread (.hall E)}

namespace Crowd

/-- Every answer in the log heeds its call. -/
def Heeded (w : Crowd (.hall E)) : Prop := ∀ e ∈ w.log, Heeds e.2.call e.2.answer

theorem Heeded.step (h : Heeded w) (hs : Step w w') : Heeded w' := by
  cases hs with
  | answer i th c a s σ _ _ _ hlook =>
    obtain ⟨now, t, -, -, hlook⟩ := hlook
    intro e he
    rcases List.mem_append.1 he with he | he
    · exact h e he
    · rw [List.mem_singleton.1 he]
      exact Hall.look_heeds hlook.symm
  | arrive => exact h
  | silent => exact h
  | block => exact h
  | drop => exact h
  | stir => exact h

theorem Reach.heeded (h : Reach σ w) : Heeded w := by
  induction h with
  | start => exact List.forall_mem_nil _
  | step _ hs ih => exact ih.step hs

end Crowd

/-- A reservation of a crowd blames no guard for what it returns. -/
theorem Crowd.Reach.blameless {r : Except AdmissionError Reservation} (h : Crowd.Reach σ w)
    (hth : th ∈ w.threads) (hr : th.outcome? = some r) : Blameless r := by
  obtain ⟨i, hi⟩ := List.getElem?_of_mem hth
  have hleads := h.led.leads i th hi
  have hopens := h.opened th hth
  have hheeds : ∀ x ∈ awaited (own i w.log), Heeds x.call x.answer := fun x hx =>
    h.heeded (i, x) (mem_own.1 (List.mem_of_mem_filter hx))
  obtain ⟨task, strand, pending, dropped⟩ := th
  cases task with
  | release _ => cases hr
  | reserve p q =>
    obtain ⟨lookup, hasFlags, hasPublisher, rfl⟩ := hopens p q rfl
    obtain ⟨φ, hcourse, -, hend⟩ := reserve_course hleads
    obtain ⟨-, hb⟩ := hcourse.isBlameless (Settings.ofLookup_withinLimits lookup) hheeds
    obtain ⟨-, rfl⟩ := hend _ hr
    exact hb

/-- From whatever state of the store, and however the calls of all reservations are interleaved,
no reservation is turned away for bad input or for want of infrastructure. -/
theorem reach_accepted (h : Crowd.Reach σ w) : ∀ th ∈ w.threads,
    (∀ why, th.outcome? ≠ some (.error (.invalid why))) ∧
      ∀ text, th.outcome? ≠ some (.error (.infrastructureUnavailable text)) :=
  fun _ hth => ⟨fun _ hr => h.blameless hth hr _ rfl trivial,
    fun _ hr => h.blameless hth hr _ rfl trivial⟩

end

/-! ### A reservation under settings that are mostly malformed -/

namespace Sample

/-- The limiter is not waited for, and the other variables cannot be read. -/
def garbled (name : String) : Option String :=
  if name = Settings.names.rateWait then some "0" else some "soon"

def surroundings : Surroundings where
  State := Unit
  Pending := Empty
  due? := nofun
  tell _ _ c := ((), answer c)
  look _ _ _ c _ := ((), [], .answered (answer c))
  cancel _ _ _ := nofun

def hall : Hall surroundings := ⟨.fresh (.ofNat 1), ()⟩

def garbledPolicy : Policy := .plain (Settings.ofLookup garbled) false true

/-- A look at any call. -/
def usher (h : Hall surroundings) (c : Call) (v : Option (Hall.Pending surroundings)) :
    Option (Hall surroundings × Look c.Answer (Hall.Pending surroundings)) :=
  let r := h.look 0 ((v.map (·.1)).getD 0) c (v.map (·.2))
  some (r.1, r.2.2)

theorem looks_of_usher (h : Hall surroundings) (c : Call) (v : Option (Hall.Pending surroundings))
    (h' : Hall surroundings) (look : Look c.Answer (Hall.Pending surroundings))
    (hu : usher h c v = some (h', look)) : (Office.hall surroundings).Looks h c v h' look := by
  refine ⟨0, (v.map (·.1)).getD 0, ?_, ?_⟩
  · rintro x rfl
    rfl
  · cases hu
    exact ⟨rfl, rfl⟩

/-- The limiter says `granted`, and everybody else answers as in the sample. -/
def reply (granted : Bool) : (c : Call) → c.Answer
  | .rate _ _ _ _ => .ok granted
  | c => answer c

/-- The store is looked at, and the limiter is taken to say `granted`. -/
def relay (granted : Bool) (h : Hall surroundings) (c : Call)
    (_ : Option (Hall.Pending surroundings)) :
    Option (Hall surroundings × Look c.Answer (Hall.Pending surroundings)) :=
  some ((h.look 0 0 c none).1, .answered (reply granted c))

/-- One reservation arrives. -/
def arrival : Crowd (.hall surroundings) := ⟨hall, [.start (.reserve garbledPolicy request)], []⟩

/-- The limiter has answered, and then the store is as it was before. Buckets count in doubles,
which do not compute in proofs: both answers are followed up, from a store that computes. -/
def limited (granted : Bool) : Crowd (.hall surroundings) :=
  { arrival.turn (relay granted) 0 with state := hall }

/-- What comes of the reservation when the limiter has answered. -/
def onward (granted : Bool) : Crowd (.hall surroundings) :=
  (List.replicate 60 0).foldl (Crowd.turn usher) (limited granted)

/-- Who does not wait for the limiter is answered at the first look. -/
theorem look_rate {h : Hall surroundings} {key : SlotKey} {wait : Duration} {plan : RatePlan}
    (hcheck : (Local.Attempt.token key.text wait plan).check = .ok ()) (hwait : wait = .zero) :
    ∃ granted, (h.look 0 0 (.rate false key wait plan) none).2.2 = .answered (.ok granted) := by
  have hfine : (h.store.begin 0 0 (.token key.text wait plan)).2.IsFine :=
    Local.Store.begin_isFine hcheck
  show ∃ granted, Hall.settle 0 (h.store.begin 0 0 (.token key.text wait plan)).2 =
    .answered (.ok granted)
  cases hb : (h.store.begin 0 0 (.token key.text wait plan)).2 with
  | done o =>
    cases o with
    | ok g => exact ⟨g.isSome, rfl⟩
    | error e => exact absurd hb (hfine e)
  | waiting w =>
    -- The next try would be a millisecond after the first one, and the deadline is not.
    rw [Local.Store.begin, hcheck] at hb
    obtain ⟨⟨-, hle, hlate⟩, hdeadline, htoken⟩ := Local.Store.tryToken_waiting hb
    have hlate := hlate htoken
    rw [hdeadline, hwait] at hle
    exact absurd (Nat.le_trans hlate hle) (by decide)

theorem reach_arrival : Crowd.Reach hall arrival :=
  .step .start (.arrive _ garbledPolicy request ⟨garbled, false, true, rfl⟩)

theorem call?_start {O : Office} {settings : Settings} {hasPublisher : Bool} :
    (Thread.start (.reserve (.plain settings false hasPublisher) request) : Thread O).strand.call? =
      some (.rate false request.slot.key settings.rateWait settings.rate) :=
  rfl

theorem reach_refresh {w : Crowd (.hall surroundings)} (h : Crowd.Reach hall w) :
    Crowd.Reach hall { w with state := hall } :=
  h.step (.stir w hall trivial)

theorem reach_limited : ∃ granted, Crowd.Reach hall (limited granted) := by
  have hwait : garbledPolicy.settings.rateWait = .zero := by decide
  obtain ⟨granted, hlook⟩ := look_rate (h := hall)
    (Phase.token_check (q := request) (Settings.ofLookup_withinLimits garbled)) hwait
  suffices h : Crowd.Reach hall (arrival.turn (relay granted) 0) from
    ⟨granted, reach_refresh h⟩
  refine reach_arrival.turn 0 fun th hth c hc σ' look hl => ?_
  obtain rfl : Thread.start (.reserve garbledPolicy request) = th := Option.some.inj hth
  rw [garbledPolicy, call?_start] at hc
  obtain rfl := Option.some.inj hc
  obtain ⟨hstate, hanswer⟩ := Prod.mk.inj (Option.some.inj hl)
  exact ⟨0, 0, nofun, hstate.symm, hanswer.symm.trans hlook.symm⟩

theorem reach_onward : ∃ granted, Crowd.Reach hall (onward granted) := by
  obtain ⟨granted, h⟩ := reach_limited
  exact ⟨granted, h.turns looks_of_usher _⟩

end Sample

theorem sample_accepted : ∃ w : Crowd (.hall Sample.surroundings), Crowd.Reach Sample.hall w ∧
    (w.threads.map Thread.outcome? =
        [some (.ok ⟨1, 7, 2, Sample.request.slot.key, false⟩)] ∨
      w.threads.map Thread.outcome? = [some (.error .rateLimited)]) ∧
    ∀ th ∈ w.threads, (∀ why, th.outcome? ≠ some (.error (.invalid why))) ∧
      ∀ text, th.outcome? ≠ some (.error (.infrastructureUnavailable text)) := by
  obtain ⟨granted, h⟩ := Sample.reach_onward
  refine ⟨Sample.onward granted, h, ?_, reach_accepted h⟩
  cases granted with
  | true => exact .inl (by decide +kernel)
  | false => exact .inr (by decide +kernel)

end Admission

end Turnstile
