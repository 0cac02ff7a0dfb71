import Turnstile.Proofs.Admission.Course
import Turnstile.Proofs.Runs

/-!
# One reservation under the fair lock and under its substitute

Two runs of a reservation in which everybody but the locks behaves alike: in the one the fair lock
answers, in the other it cannot be reached and its substitute answers the same. Everybody else is
asked the same in both, and the outcome is the same up to `degrade` (`reserve_compared`).

The locks' own calls stand in the histories of both runs, so two histories are compared by what the
`others` see of them. Work that does not ask the locks `Concurs`; the rest is the two sections.
-/

namespace Turnstile.Admission

/-- The calls with which a reservation takes and releases its lock. -/
def Call.isOfLock : Call → Bool
  | newOwner => true
  | lock _ _ _ => true
  | isHeldBy _ _ => true
  | unlock _ _ => true
  | spareLock _ _ => true
  | spareUnlock _ => true
  | _ => false

/-- Calls to neither the locks, nor the loader and the writer, nor the clock. -/
def Call.isPlain : Call → Bool
  | flag _ => true
  | rate _ _ _ _ => true
  | permits _ _ _ _ => true
  | giveBack _ _ => true
  | publish _ => true
  | note _ => true
  | pause _ => true
  | _ => false

def Call.isNote : Call → Bool
  | note _ => true
  | _ => false

/-- What everybody but the locks is asked, and answers. -/
def others (h : History) : History := h.filter fun e => !e.call.isOfLock && !e.call.isNote

/-- Two behaviours that differ in their locks. With `F` the fair lock answers `granted`; with `F'`
it cannot be reached and its substitute answers the same. -/
structure Counterparts (granted : Bool) (F F' : Behaviour collaborators) : Prop where
  same : ∀ h h' c, c.isOfLock = false → others h = others h' → F' h' c = F h c
  lock : ∀ h key owner wait, F h (.lock key owner wait) = .ok granted
  unreachable : ∀ h key owner wait, ∃ text,
    F' h (.lock key owner wait) = .error (.unavailable text)
  spareLock : ∀ h key wait, ∃ held, F' h (.spareLock key wait) = .ok held ∧ held.isSome = granted

/-- The outcome under the substitute, given the one under the fair lock. -/
def degrade : Except AdmissionError Reservation → Except AdmissionError Reservation
  | .ok r => .ok { r with degraded := true }
  | .error (.store (.constraint text)) =>
    .error (.persistenceUnprocessable (StoreError.constraint text).message)
  | .error (.store (.connection text)) =>
    .error (.persistenceUnprocessable (StoreError.connection text).message)
  | .error (.store (.transient text)) =>
    .error (.persistenceUnprocessable (StoreError.transient text).message)
  | .error e => .error e

/-- Before a lock was asked, the flag or the rate limiter ended the reservation with the error. -/
def Barred (p : Policy) (q : Request) (t : History) (e : AdmissionError) : Prop :=
  ⟨.flag reservationFlag, .ok false⟩ ∈ t ∧ e = .featureDisabled ∨
    ∃ spare a, ⟨.rate spare q.slot.key p.settings.rateWait p.settings.rate, a⟩ ∈ t ∧
      p.stop? (.rate spare q.slot.key p.settings.rateWait p.settings.rate) a = some e

/-- The fair lock is asked. -/
def asksLock (p : Policy) (q : Request) (owner : Ulid) (a : Except GuardError Bool) : History :=
  [⟨.newOwner, owner⟩, ⟨.lock q.slot.key owner p.settings.lockWait, a⟩,
    ⟨.note (.waited .lock), ()⟩]

/-- The substitute of the fair lock is asked. -/
def asksSpareLock (p : Policy) (q : Request) (a : Except GuardError (Option Held)) : History :=
  [⟨.note (.fellBack .lock), ()⟩, ⟨.spareLock q.slot.key p.settings.spareLockWait, a⟩,
    ⟨.note (.waited .spareLock), ()⟩]

/-- How a run with an answer of the fair lock compares with one with that answer of its
substitute: the trace and the outcome of the first, and those of the second. -/
inductive Compared (p : Policy) (q : Request) : Bool → History →
    Except AdmissionError Reservation → History → Except AdmissionError Reservation → Prop
  /-- The lock was not asked. -/
  | early {granted : Bool} {t : History} {e : AdmissionError} :
    (∀ e ∈ t, e.call.isOfLock = false) → Barred p q t e →
    Compared p q granted t (.error e) t (.error e)
  /-- Nobody is called after the refusal. -/
  | refused {t n n' : History} {owner owner' : Ulid} {text : String} :
    (∀ e ∈ t, e.call.isOfLock = false) → (∀ e ∈ n, e.call.isNote = true) →
    (∀ e ∈ n', e.call.isNote = true) →
    Compared p q false (t ++ asksLock p q owner (.ok false) ++ n) (.error .lockContention)
      (t ++ asksLock p q owner' (.error (.unavailable text)) ++ asksSpareLock p q (.ok none) ++ n')
      (.error .lockContention)
  /-- The same calls `m` are made under either lock, from the grant until the release begins. -/
  | granted {t m u u' : History} {owner owner' : Ulid} {text : String} {held : Held}
    {a : Except GuardError Bool} {a' : Except GuardError Unit}
    {r : Except AdmissionError Reservation} :
    (∀ e ∈ t, e.call.isOfLock = false) → (∀ e ∈ m, e.call.isOfLock = false) →
    (∀ x, r = .ok x → x.degraded = false) →
    Compared p q true
      (t ++ asksLock p q owner (.ok true) ++ m ++ ⟨.isHeldBy q.slot.key owner, a⟩ :: u) r
      (t ++ asksLock p q owner' (.error (.unavailable text)) ++ asksSpareLock p q (.ok (some held)) ++
        m ++ ⟨.spareUnlock held, a'⟩ :: u') (degrade r)

section

variable {α : Type} {p : Policy} {q : Request} {granted : Bool} {F F' : Behaviour collaborators}
  {h h' t v v' : History} {r r' : Except AdmissionError Reservation} {e : AdmissionError}

theorem others_append : others (h ++ h') = others h ++ others h' := List.filter_append ..

theorem others_asksLock {owner : Ulid} {a : Except GuardError Bool} :
    others (asksLock p q owner a) = [] :=
  rfl

theorem others_asksSpareLock {a : Except GuardError (Option Held)} :
    others (asksSpareLock p q a) = [] :=
  rfl

theorem Barred.mono (hb : Barred p q t e) (hsub : t ⊆ v) : Barred p q v e := by
  rcases hb with ⟨hflag, he⟩ | ⟨spare, a, hrate, he⟩
  · exact .inl ⟨hsub hflag, he⟩
  · exact .inr ⟨spare, a, hsub hrate, he⟩

/-! ## Parts with plain calls -/

/-- The routine makes plain calls only. -/
abbrev Plain (k : Routine α) : Prop := Strand.Confined (fun c : Call => c.isPlain = true) k

theorem checkEnabled_plain : Plain p.checkEnabled := by
  unfold Policy.checkEnabled
  split
  · refine .call rfl fun a => ?_
    rcases a with e | _ | _ <;> exact .done _
  · exact .done _

theorem takeToken_plain (key : SlotKey) : Plain (p.takeToken key) := by
  refine .call rfl fun a => ?_
  rcases a with e | b
  · dsimp only
    split
    · exact .call rfl fun _ => .call rfl fun _ => .done _
    · exact .done _
  · exact .done _

theorem permitVerdict_plain (spare : Bool) (a : Except GuardError Bool) :
    Plain (Policy.permitVerdict spare a) := by
  rcases a with e | b
  · exact .done _
  · exact .call rfl fun _ => .done _

theorem takePermits_plain (key : SlotKey) (n : UInt32) : Plain (p.takePermits key n) := by
  refine .call rfl fun a => ?_
  rcases a with e | b
  · dsimp only
    split
    · exact .call rfl fun _ => .call rfl fun a => permitVerdict_plain true a
    · exact .done _
  · exact permitVerdict_plain false _

theorem giveBack_plain (spare : Bool) (key : SlotKey) :
    Plain (Release.permits spare key).program := by
  refine .call rfl fun a => ?_
  rcases a with e | _
  · exact .call rfl fun _ => .done _
  · exact .done _

theorem confirm_plain (key : SlotKey) (degraded : Bool) (found : Found) :
    Plain (p.confirm q key degraded found) := by
  rcases found with e | ⟨id, c⟩
  · exact .done _
  · unfold Policy.confirm
    dsimp only
    split
    · exact .call rfl fun _ => .done _
    · exact .done _

/-! ## Who bars a reservation -/

/-- Only the flag or the rate limiter makes the routine fail. -/
abbrev Bars (p : Policy) (q : Request) (k : Routine (Except AdmissionError α)) : Prop :=
  Strand.Yields Release.program (fun t r => ∀ e, r = .error e → Barred p q t e) k

theorem checkEnabled_bars : Bars p q p.checkEnabled := by
  unfold Policy.checkEnabled
  split
  · refine .call fun a => ?_
    rcases a with e | _ | _
    · exact .done nofun
    · refine .done ?_
      rintro _ ⟨⟩
      exact .inl ⟨List.mem_singleton_self _, rfl⟩
    · exact .done nofun
  · exact .done nofun

theorem takeToken_bars : Bars p q (p.takeToken q.slot.key) := by
  -- whichever of the two is asked last decides
  have hlast (spare : Bool) (a : Except GuardError Bool) (t : History)
      (ht : ⟨.rate spare q.slot.key p.settings.rateWait p.settings.rate, a⟩ ∈ t)
      (ha : ∀ e, a = .error e → (e.isUnavailable && !spare && p.spareRate) = false) :
      ∀ e, Policy.rateVerdict a = .error e → Barred p q t e := by
    intro e he
    refine .inr ⟨spare, a, ht, ?_⟩
    rcases a with e' | _ | _
    · cases he
      exact if_neg (by simp [ha e' rfl])
    · cases he
      rfl
    · cases he
  refine .call fun a => ?_
  rcases a with e | b
  · dsimp only
    split
    · refine .call fun _ => .call fun a => .done (hlast true a _ (by simp) ?_)
      simp
    · rename_i h
      exact .done (hlast false _ _ (by simp) (by rintro _ ⟨⟩; simpa using h))
  · exact .done (hlast false _ _ (by simp) nofun)

/-! ## Work that does not ask the locks -/

/-- The routine asks no lock, and has the same run with both behaviours. -/
abbrev Same (F F' : Behaviour collaborators) (k : Routine α) : Prop :=
  Strand.Concurs Release.program F F' (fun h h' => others h = others h')
    (fun c => c.isOfLock = false) k

namespace Counterparts

variable (hF : Counterparts granted F F')
include hF

theorem agree : Strand.Agree (I := collaborators) F F' (fun h h' => others h = others h')
    (fun c => c.isOfLock = false) where
  answer h h' c hR hc := hF.same h h' c hc hR
  keep h h' e hR := by rw [others_append, others_append, hR]

theorem call {c : Call} {k : c.Answer → Routine α} (hc : c.isOfLock = false)
    (hk : ∀ x, Same F F' (k x)) : Same F F' (.call c k) :=
  .call hF.agree hc hk

theorem plain {k : Routine α} (hk : Plain k) : Same F F' k := by
  refine (hk.mono fun c hc => ?_).concurs hF.agree
  cases c <;> first | rfl | cases hc

theorem walk (user : UInt64) (now : DateTime) (cs : List Candidate) :
    Same F F' (Policy.walk user now cs) := by
  induction cs with
  | nil => exact .done _
  | cons c rest ih =>
    refine hF.call rfl fun a => ?_
    rcases a with e | _ | id
    · exact .done _
    · exact ih
    · exact .done _

theorem occupy : Same F F' (p.occupy q q.slot.key) := by
  refine hF.call rfl fun a => ?_
  rcases a with e | _ | ⟨c, cs⟩
  · exact .done _
  · exact .done _
  · refine (hF.plain (takePermits_plain _ _)).bind fun r => ?_
    rcases r with e | spare
    · exact .done _
    · exact .owing (hF.call rfl fun now => hF.walk q.user now _) (hF.plain (giveBack_plain spare _))

end Counterparts

/-! ## The two sections -/

/-- What is told of a reservation that was made. -/
def announcement (p : Policy) (q : Request) : Found → History
  | .ok (id, c) =>
    if p.hasPublisher then
      [⟨.publish (.occupied id c.restaurant c.table q.user q.slot.key), ()⟩]
    else []
  | .error _ => []

theorem confirm_ends (F : Behaviour collaborators) (h : History) (degraded : Bool) (found : Found)
    (owed : List Release) :
    Strand.Ends Release.program F h ⟨p.confirm q q.slot.key degraded found, owed⟩
      (announcement p q found) (found.map (reservation q degraded)) owed := by
  rcases found with e | ⟨id, c⟩
  · exact .done
  · unfold Policy.confirm announcement
    dsimp only
    split
    · exact .call .done
    · exact .done

theorem announcement_unprocessable (found : Found) :
    announcement p q (found.mapError unprocessable) = announcement p q found := by
  cases found <;> rfl

theorem unprocessable_degrade (found : Found) :
    (found.mapError unprocessable).map (reservation q true) =
      degrade (found.map (reservation q false)) := by
  rcases found with e | x
  · rcases e with _ | _ | _ | _ | _ | _ | _ | (_ | _ | _ | _) | _ <;> rfl
  · rfl

theorem unlock_ends (F : Behaviour collaborators) (h : History) (owner : Ulid)
    (owed : List Release) :
    ∃ a u, others (⟨.isHeldBy q.slot.key owner, a⟩ :: u) = [] ∧
      Strand.Ends Release.program F h ⟨(Release.lock q.slot.key owner).program, owed⟩
        (⟨.isHeldBy q.slot.key owner, a⟩ :: u) () owed := by
  rcases hx : F h (.isHeldBy q.slot.key owner) with e | _ | _
  · exact ⟨_, [⟨.note (.releaseFailed .lock), ()⟩], rfl, .ask hx (.call .done)⟩
  · exact ⟨_, [], rfl, .ask hx .done⟩
  · rcases hy : F (h ++ [⟨.isHeldBy q.slot.key owner, .ok true⟩]) (.unlock q.slot.key owner) with
      e | b
    · exact ⟨_, [⟨.unlock q.slot.key owner, .error e⟩, ⟨.note (.releaseFailed .lock), ()⟩], rfl,
        .ask hx (.ask hy (.call .done))⟩
    · exact ⟨_, [⟨.unlock q.slot.key owner, .ok b⟩], rfl, .ask hx (.ask hy .done)⟩

theorem spareUnlock_ends (F : Behaviour collaborators) (h : History) (held : Held)
    (owed : List Release) :
    ∃ a u, others (⟨.spareUnlock held, a⟩ :: u) = [] ∧
      Strand.Ends Release.program F h ⟨(Release.spareLock held).program, owed⟩
        (⟨.spareUnlock held, a⟩ :: u) () owed := by
  rcases hx : F h (.spareUnlock held) with e | _
  · exact ⟨_, [⟨.note (.releaseFailed .spareLock), ()⟩], rfl, .ask hx (.call .done)⟩
  · exact ⟨_, [], rfl, .ask hx .done⟩

/-- The part of a reservation that asks for a lock, with the fair lock granted. -/
theorem admitLocked_fair {owner : Ulid} {m u : History} {found : Found}
    (ho : F h .newOwner = owner) (hl : ∀ h key owner wait, F h (.lock key owner wait) = .ok true)
    (hw : Strand.Ends Release.program F (h ++ asksLock p q owner (.ok true))
      ⟨p.occupy q q.slot.key, [.lock q.slot.key owner]⟩ m found [.lock q.slot.key owner])
    (hr : Strand.Ends Release.program F (h ++ asksLock p q owner (.ok true) ++ m)
      ⟨(Release.lock q.slot.key owner).program, []⟩ u () []) :
    Strand.Ends Release.program F h ⟨p.admitLocked q q.slot.key, []⟩
      (asksLock p q owner (.ok true) ++ (m ++ u) ++ announcement p q found)
      (found.map (reservation q false)) [] := by
  have hsec := (hw.owing hr).bind (f := fun r => .done (Locked.completed r)) .done
  rw [List.append_nil, asksLock, List.append_cons, List.append_cons] at hsec
  refine .bind (a := .completed found) (o := []) ?_ (confirm_ends F _ false found [])
  exact .ask ho (.ask (hl ..) (.call hsec))

/-- The same with the fair lock out of reach and its substitute granted. -/
theorem admitLocked_spare {owner : Ulid} {text : String} {held : Held} {m u : History}
    {found : Found} (hp : p.spareLock = true) (ho : F h .newOwner = owner)
    (hl : F (h ++ [⟨.newOwner, owner⟩]) (.lock q.slot.key owner p.settings.lockWait) =
      .error (.unavailable text))
    (hs : F (h ++ asksLock p q owner (.error (.unavailable text)) ++ [⟨.note (.fellBack .lock), ()⟩])
      (.spareLock q.slot.key p.settings.spareLockWait) = .ok (some held))
    (hw : Strand.Ends Release.program F
      (h ++ asksLock p q owner (.error (.unavailable text)) ++ asksSpareLock p q (.ok (some held)))
      ⟨p.occupy q q.slot.key, [.spareLock held]⟩ m found [.spareLock held])
    (hr : Strand.Ends Release.program F
      (h ++ asksLock p q owner (.error (.unavailable text)) ++ asksSpareLock p q (.ok (some held)) ++
        m) ⟨(Release.spareLock held).program, []⟩ u () []) :
    Strand.Ends Release.program F h ⟨p.admitLocked q q.slot.key, []⟩
      (asksLock p q owner (.error (.unavailable text)) ++
        (asksSpareLock p q (.ok (some held)) ++ (m ++ u) ++ announcement p q found))
      ((found.mapError unprocessable).map (reservation q true)) [] := by
  have hwork := hw.bind (f := fun r => .done (r.mapError unprocessable)) .done
  rw [List.append_nil] at hwork
  have hsec := hwork.owing hr
  rw [asksSpareLock, List.append_cons, List.append_cons] at hsec
  have hlost : Strand.Ends Release.program F h
      ⟨underLock q.slot.key p.settings.lockWait (p.occupy q q.slot.key), []⟩
      (asksLock p q owner (.error (.unavailable text))) (.unreachable (.unavailable text)) [] :=
    .ask ho (.ask hl (.call .done))
  refine hlost.bind ?_
  simp only [hp, if_true]
  rw [← announcement_unprocessable]
  refine .call (.bind (.ask hs (.call hsec)) (confirm_ends F _ true _ []))

theorem admitLocked_fairRefused {owner : Ulid} (ho : F h .newOwner = owner)
    (hl : ∀ h key owner wait, F h (.lock key owner wait) = .ok false) :
    Strand.Ends Release.program F h ⟨p.admitLocked q q.slot.key, []⟩
      (asksLock p q owner (.ok false)) (.error .lockContention) [] := by
  rw [← List.append_nil (asksLock p q owner _)]
  exact .bind (a := .completed (.error .lockContention)) (o := [])
    (.ask ho (.ask (hl ..) (.call .done))) .done

theorem admitLocked_spareRefused {owner : Ulid} {text : String} (hp : p.spareLock = true)
    (ho : F h .newOwner = owner)
    (hl : F (h ++ [⟨.newOwner, owner⟩]) (.lock q.slot.key owner p.settings.lockWait) =
      .error (.unavailable text))
    (hs : F (h ++ asksLock p q owner (.error (.unavailable text)) ++ [⟨.note (.fellBack .lock), ()⟩])
      (.spareLock q.slot.key p.settings.spareLockWait) = .ok none) :
    Strand.Ends Release.program F h ⟨p.admitLocked q q.slot.key, []⟩
      (asksLock p q owner (.error (.unavailable text)) ++ asksSpareLock p q (.ok none))
      (.error .lockContention) [] := by
  have hlost : Strand.Ends Release.program F h
      ⟨underLock q.slot.key p.settings.lockWait (p.occupy q q.slot.key), []⟩
      (asksLock p q owner (.error (.unavailable text))) (.unreachable (.unavailable text)) [] :=
    .ask ho (.ask hl (.call .done))
  refine hlost.bind ?_
  simp only [hp, if_true]
  rw [← List.append_nil (asksSpareLock p q (.ok none))]
  exact .call (.bind (.ask hs (.call .done)) .done)

/-! ## The whole reservation -/

namespace Compared

theorem after (ht : ∀ e ∈ t, e.call.isOfLock = false) (hc : Compared p q granted v r v' r') :
    Compared p q granted (t ++ v) r (t ++ v') r' := by
  cases hc with
  | early hv hb =>
    exact .early (List.forall_mem_append.2 ⟨ht, hv⟩) (hb.mono (List.subset_append_right ..))
  | refused hv hn hn' =>
    simpa only [List.append_assoc] using
      Compared.refused (List.forall_mem_append.2 ⟨ht, hv⟩) hn hn'
  | granted hv hm hr =>
    simpa only [List.append_assoc] using
      Compared.granted (List.forall_mem_append.2 ⟨ht, hv⟩) hm hr

/-- A last note, which tells of the outcome. -/
theorem note (n : Except AdmissionError Reservation → Note) (hc : Compared p q granted v r v' r') :
    Compared p q granted (v ++ [⟨.note (n r), ()⟩]) r (v' ++ [⟨.note (n r'), ()⟩]) r' := by
  cases hc with
  | early hv hb =>
    exact .early (List.forall_mem_append.2 ⟨hv, by simp [Call.isOfLock]⟩)
      (hb.mono (List.subset_append_left ..))
  | refused hv hn hn' =>
    rw [List.append_assoc _ _ [_], List.append_assoc _ _ [_]]
    exact .refused hv (List.forall_mem_append.2 ⟨hn, by simp [Call.isNote]⟩)
      (List.forall_mem_append.2 ⟨hn', by simp [Call.isNote]⟩)
  | granted hv hm hr =>
    rw [List.append_assoc _ (_ :: _) [_], List.append_assoc _ (_ :: _) [_], List.cons_append,
      List.cons_append]
    exact .granted hv hm hr

end Compared

/-- The two runs of a routine that ends with a reservation. -/
def Differs (p : Policy) (q : Request) (granted : Bool) (F F' : Behaviour collaborators)
    (h h' : History) (k : Routine (Except AdmissionError Reservation)) : Prop :=
  ∃ v r v' r', Strand.Ends Release.program F h ⟨k, []⟩ v r [] ∧
    Strand.Ends Release.program F' h' ⟨k, []⟩ v' r' [] ∧ others v' = others v ∧
    Compared p q granted v r v' r'

namespace Differs

/-- A part that lets the reservation through or bars it, in both runs alike. -/
theorem bind {k : Routine (Except AdmissionError α)}
    {f : Except AdmissionError α → Routine (Except AdmissionError Reservation)}
    (hk : Same F F' k) (hb : Bars p q k) (hstop : ∀ e, f (.error e) = .done (.error e))
    (hf : ∀ a h h', others h = others h' → Differs p q granted F F' h h' (f (.ok a)))
    (hR : others h = others h') : Differs p q granted F F' h h' (k.bind f) := by
  obtain ⟨t, a, ht, hR', he⟩ := hk h h' hR
  obtain ⟨he₁, he₂⟩ := he [] []
  rcases a with e | a
  · have hdone (F : Behaviour collaborators) (h : History) :
        Strand.Ends Release.program F h ⟨f (.error e), []⟩ [] (.error e) [] :=
      (hstop e).symm ▸ .done
    have hbar : Barred p q t e := (hb.of_ends he₁) e rfl
    refine ⟨t ++ [], _, t ++ [], _, he₁.bind (hdone ..), he₂.bind (hdone ..), rfl, ?_⟩
    rw [List.append_nil]
    exact .early ht hbar
  · obtain ⟨v, r, v', r', hv, hv', ho, hc⟩ := hf a _ _ hR'
    refine ⟨t ++ v, r, t ++ v', r', he₁.bind hv, he₂.bind hv', ?_, hc.after ht⟩
    rw [others_append, others_append, ho]

theorem note {k : Routine (Except AdmissionError Reservation)}
    {n : Except AdmissionError Reservation → Note} (hk : Differs p q granted F F' h h' k) :
    Differs p q granted F F' h h' (k.bind fun r => .call (.note (n r)) fun _ => .done r) := by
  obtain ⟨v, r, v', r', hv, hv', ho, hc⟩ := hk
  refine ⟨_, r, _, r', hv.bind (.call .done), hv'.bind (.call .done), ?_, hc.note n⟩
  rw [others_append, others_append, ho]
  rfl

end Differs

theorem Counterparts.admitLocked (hp : p.spareLock = true) (hF : Counterparts granted F F')
    (hR : others h = others h') : Differs p q granted F F' h h' (p.admitLocked q q.slot.key) := by
  obtain ⟨owner, ho⟩ : ∃ owner, F h .newOwner = owner := ⟨_, rfl⟩
  obtain ⟨owner', ho'⟩ : ∃ owner', F' h' .newOwner = owner' := ⟨_, rfl⟩
  obtain ⟨text, hl'⟩ := hF.unreachable (h' ++ [⟨.newOwner, owner'⟩]) q.slot.key owner'
    p.settings.lockWait
  obtain ⟨x, hs, hx⟩ := hF.spareLock
    (h' ++ asksLock p q owner' (.error (.unavailable text)) ++ [⟨.note (.fellBack .lock), ()⟩])
    q.slot.key p.settings.spareLockWait
  cases granted with
  | false =>
    obtain rfl : x = none := by simpa using hx
    refine ⟨_, _, _, _, admitLocked_fairRefused ho hF.lock,
      admitLocked_spareRefused hp ho' hl' hs, rfl, ?_⟩
    simpa only [List.append_nil, List.nil_append] using
      @Compared.refused p q [] [] [] owner owner' text (by simp) (by simp) (by simp)
  | true =>
    obtain ⟨held, rfl⟩ := Option.isSome_iff_exists.1 hx
    have hR₁ : others (h ++ asksLock p q owner (.ok true)) =
        others (h' ++ asksLock p q owner' (.error (.unavailable text)) ++
          asksSpareLock p q (.ok (some held))) := by
      simp only [others_append, others_asksLock, others_asksSpareLock, List.append_nil, hR]
    obtain ⟨m, found, hm, -, he⟩ := hF.occupy (p := p) (q := q) _ _ hR₁
    obtain ⟨a, u, hu, hr⟩ := unlock_ends (q := q) F (h ++ asksLock p q owner (.ok true) ++ m) owner []
    obtain ⟨a', u', hu', hr'⟩ := spareUnlock_ends F' (h' ++
      asksLock p q owner' (.error (.unavailable text)) ++ asksSpareLock p q (.ok (some held)) ++ m)
      held []
    have hdeg : ∀ x, found.map (reservation q false) = .ok x → x.degraded = false := by
      rintro x hx
      rcases found with e | ⟨id, c⟩
      · cases hx
      · cases hx
        rfl
    refine ⟨_, _, _, _, admitLocked_fair ho hF.lock (he _ []).1 hr,
      admitLocked_spare hp ho' hl' hs (he [] _).2 hr', ?_, ?_⟩
    · simp only [others_append, others_asksLock, others_asksSpareLock, hu, hu', List.append_nil,
        List.nil_append]
    · rw [unprocessable_degrade]
      simpa only [List.append_assoc, List.nil_append, List.cons_append] using
        @Compared.granted p q [] m (u ++ announcement p q found) (u' ++ announcement p q found)
          owner owner' text held a a' _ (by simp) hm hdeg

/-- Every reservation has a run in either case, and the two compare. -/
theorem reserve_compared (hp : p.spareLock = true) (hF : Counterparts granted F F') :
    ∃ t r t' r', Strand.Ends Release.program F [] ⟨p.reserve q, []⟩ t r [] ∧
      Strand.Ends Release.program F' [] ⟨p.reserve q, []⟩ t' r' [] ∧ others t' = others t ∧
      Compared p q granted t r t' r' := by
  refine Differs.note (Differs.bind (hF.plain checkEnabled_plain) checkEnabled_bars (fun _ => rfl)
    (fun _ h h' hR => ?_) rfl)
  exact Differs.bind (hF.plain (takeToken_plain _)) takeToken_bars (fun _ => rfl)
    (fun _ _ _ hR => hF.admitLocked hp hR) hR

end

/-! ## A reservation with either lock -/

namespace Sample

def sparePolicy : Policy := { policy with spareLock := true }

def fair : Behaviour collaborators := fun _ c => answer c

def spare : Behaviour collaborators := fun _ c =>
  match c with
  | .lock _ _ _ => .error (.unavailable "connection refused")
  | .spareLock key _ => .ok (some ⟨key.text, 1⟩)
  | c => answer c

theorem counterparts : Counterparts true fair spare where
  same h h' c hc _ := by
    cases c with
    | lock => cases hc
    | spareLock => cases hc
    | _ => rfl
  lock _ _ _ _ := rfl
  unreachable _ _ _ _ := ⟨_, rfl⟩
  spareLock _ key _ := ⟨some ⟨key.text, 1⟩, rfl, rfl⟩

/-- What is made of the one candidate. -/
def made : Reservation := ⟨1, 7, 2, request.slot.key, false⟩

end Sample

theorem sample_compared :
    Sample.sparePolicy.spareLock = true ∧ Counterparts true Sample.fair Sample.spare ∧
      ∃ t t',
        Strand.Ends Release.program Sample.fair []
          ⟨Sample.sparePolicy.reserve Sample.request, []⟩ t (.ok Sample.made) [] ∧
        Strand.Ends Release.program Sample.spare []
          ⟨Sample.sparePolicy.reserve Sample.request, []⟩ t'
          (.ok { Sample.made with degraded := true }) [] ∧
        others t' = others t ∧
        Compared Sample.sparePolicy Sample.request true t (.ok Sample.made) t'
          (.ok { Sample.made with degraded := true }) := by
  obtain ⟨t, r, t', r', ht, ht', ho, hc⟩ := reserve_compared (p := Sample.sparePolicy)
    (q := Sample.request) rfl Sample.counterparts
  have hr : r = .ok Sample.made :=
    ht.eq_of_trial (n := 40) (f := fun x => x.2.1) (by decide +kernel)
  have hr' : r' = .ok { Sample.made with degraded := true } :=
    ht'.eq_of_trial (n := 40) (f := fun x => x.2.1) (by decide +kernel)
  subst hr hr'
  exact ⟨rfl, Sample.counterparts, t, t', ht, ht', ho, hc⟩

end Turnstile.Admission
