import Mathlib
import Turnstile.Proofs.Admission.Fallback
import Turnstile.Proofs.Admission.Ranking

/-!
# The order of the candidates

In which order the loader returns the candidates makes no difference. Two reservations whose loaders
return the same candidates in different orders, and whose clocks and lock owners may differ, make
the same calls with the same answers up to these things, and return the same (`reserve_reordered`).

The two runs part with the answer to the query, with that of the clock and with the owner of the
lock, so the proof compares two programs from then on: they agree because there is one order by
ascending number, and because the number of permits depends on the length alone. What either of them
offers, and what it returns for that, is read off the course of one reservation (`Phase.Tried`).
-/

namespace Turnstile

/-- The entry without its date. -/
def Occupancy.undated (e : Occupancy) : Occupancy := { e with occupiedAt := ⟨.epoch, .midnight⟩ }

namespace Admission

/-- The candidates that were loaded. -/
def Call.loads? : (c : Call) → c.Answer → Option (List Candidate)
  | query _, .ok cs => some cs
  | _, _ => none

/-- Permits were granted. -/
def Call.admits : (c : Call) → c.Answer → Bool
  | permits _ _ _ _, .ok true => true
  | _, _ => false

/-- What the writer was offered, without the date, and what it answered. -/
def Call.offers? : (c : Call) → c.Answer → Option (Occupancy × Except StoreError (Option UInt64))
  | create entry, a => some (entry.undated, a)
  | _, _ => none

/-- The lock was granted by the substitute. -/
def Call.degrades : (c : Call) → c.Answer → Bool
  | spareLock _ _, .ok (some _) => true
  | _, _ => false

def loads (t : History) : List (List Candidate) := t.filterMap fun e => e.call.loads? e.answer

def admits (t : History) : Bool := t.any fun e => e.call.admits e.answer

def degraded (t : History) : Bool := t.any fun e => e.call.degrades e.answer

def offers (t : History) : List (Occupancy × Except StoreError (Option UInt64)) :=
  t.filterMap fun e => e.call.offers? e.answer

/-- The offer of a candidate, and what the writer answered. -/
def offerOf (q : Request) (a : Except StoreError (Option UInt64)) (c : Candidate) :
    Occupancy × Except StoreError (Option UInt64) :=
  ((Occupancy.take c q.user ⟨.epoch, .midnight⟩).undated, a)

/-- What the writer's answer makes of the walk, unless it goes on. -/
def found? (c : Candidate) : Except StoreError (Option UInt64) → Option Found
  | .ok (some id) => some (.ok (id, c))
  | .ok none => none
  | .error e => some (.error (.store e))

/-- What is offered, and what is found. Nothing is offered if somebody ended the reservation before
permits were granted. With permits the candidates that were loaded are offered by ascending number,
up to the first that the writer does not refuse. -/
inductive Ordered (p : Policy) (q : Request) (t : History) : Found → Prop
  | idle {x : Asked collaborators} {e : AdmissionError} : x ∈ t →
    p.stop? x.call x.answer = some e → admits t = false → offers t = [] → Ordered p q t (.error e)
  /-- All are refused. -/
  | exhausted {cs sorted : List Candidate} : loads t = [cs] → admits t = true → sorted.Perm cs →
    sorted.Pairwise (fun a b => a.id ≤ b.id) → offers t = sorted.map (offerOf q (.ok none)) →
    Ordered p q t (.error .noCandidates)
  /-- The writer takes `c` or fails, and is offered none of `rest`. -/
  | settled {cs passed rest : List Candidate} {c : Candidate}
    {a : Except StoreError (Option UInt64)} {found : Found} : loads t = [cs] → admits t = true →
    (passed ++ c :: rest).Perm cs → (passed ++ c :: rest).Pairwise (fun a b => a.id ≤ b.id) →
    offers t = passed.map (offerOf q (.ok none)) ++ [offerOf q a c] → found? c a = some found →
    Ordered p q t found

/-- What is returned for what was found, given whether the lock is the substitute's. -/
def returned (q : Request) (found : Found) : Bool → Except AdmissionError Reservation
  | false => found.map (reservation q false)
  | true => (found.mapError unprocessable).map (reservation q true)

/-- A reservation with this trace returns `r` for what it found. -/
def Concludes (p : Policy) (q : Request) (t : History) (r : Except AdmissionError Reservation) :
    Prop :=
  ∃ found, Ordered p q t found ∧ r = returned q found (degraded t)

/-- Which dates and which owners of locks may stand for each other in two runs. -/
structure Kinship where
  dates : DateTime → DateTime → Prop
  owners : Ulid → Ulid → Prop

/-- Two answers of a loader with the same candidates in different orders. -/
inductive Shuffled : Except StoreError (List Candidate) → Except StoreError (List Candidate) → Prop
  | same (a : Except StoreError (List Candidate)) : Shuffled a a
  | shuffled {cs cs' : List Candidate} : cs'.Perm cs → (cs.map (·.id)).Nodup →
    Shuffled (.ok cs) (.ok cs')

/-- Entries of two traces that differ in the order of what was loaded, in dates and in owners. -/
inductive Kin (K : Kinship) : Asked collaborators → Asked collaborators → Prop
  | same (e : Asked collaborators) : Kin K e e
  | query {slot : Slot} {a a' : Except StoreError (List Candidate)} : Shuffled a a' →
    Kin K ⟨.query slot, a⟩ ⟨.query slot, a'⟩
  | wallClock {now now' : DateTime} : K.dates now now' → Kin K ⟨.wallClock, now⟩ ⟨.wallClock, now'⟩
  | create {c : Candidate} {user : UInt64} {now now' : DateTime}
    {a : Except StoreError (Option UInt64)} : K.dates now now' →
    Kin K ⟨.create (.take c user now), a⟩ ⟨.create (.take c user now'), a⟩
  | newOwner {owner owner' : Ulid} : K.owners owner owner' →
    Kin K ⟨.newOwner, owner⟩ ⟨.newOwner, owner'⟩
  | lock {key : SlotKey} {owner owner' : Ulid} {wait : Duration} {a : Except GuardError Bool} :
    K.owners owner owner' → Kin K ⟨.lock key owner wait, a⟩ ⟨.lock key owner' wait, a⟩
  | isHeldBy {key : SlotKey} {owner owner' : Ulid} {a : Except GuardError Bool} :
    K.owners owner owner' → Kin K ⟨.isHeldBy key owner, a⟩ ⟨.isHeldBy key owner', a⟩
  | unlock {key : SlotKey} {owner owner' : Ulid} {a : Except GuardError Bool} :
    K.owners owner owner' → Kin K ⟨.unlock key owner, a⟩ ⟨.unlock key owner', a⟩

/-- Calls with neither dates nor owners, except to the loader. -/
def Call.isFixed : Call → Bool
  | spareLock _ _ => true
  | spareUnlock _ => true
  | c => c.isPlain

/-- Two behaviours with loaders that differ in the order of the candidates, which have different
numbers. After histories that are alike so far they answer alike, and neither the writer nor the
lock minds which of two dates or owners it is told that stand for each other. -/
structure Reordered (K : Kinship) (F F' : Behaviour collaborators) : Prop where
  query : ∀ h h' slot, List.Forall₂ (Kin K) h h' →
    Shuffled (F h (.query slot)) (F' h' (.query slot))
  wallClock : ∀ h h', List.Forall₂ (Kin K) h h' → K.dates (F h .wallClock) (F' h' .wallClock)
  create : ∀ h h' c user now now', List.Forall₂ (Kin K) h h' → K.dates now now' →
    F' h' (.create (.take c user now')) = F h (.create (.take c user now))
  newOwner : ∀ h h', List.Forall₂ (Kin K) h h' → K.owners (F h .newOwner) (F' h' .newOwner)
  lock : ∀ h h' key owner owner' wait, List.Forall₂ (Kin K) h h' → K.owners owner owner' →
    F' h' (.lock key owner' wait) = F h (.lock key owner wait)
  isHeldBy : ∀ h h' key owner owner', List.Forall₂ (Kin K) h h' → K.owners owner owner' →
    F' h' (.isHeldBy key owner') = F h (.isHeldBy key owner)
  unlock : ∀ h h' key owner owner', List.Forall₂ (Kin K) h h' → K.owners owner owner' →
    F' h' (.unlock key owner') = F h (.unlock key owner)
  fixed : ∀ h h' c, List.Forall₂ (Kin K) h h' → c.isFixed = true → F' h' c = F h c

section

variable {α : Type} {p : Policy} {q : Request} {K : Kinship} {F F' : Behaviour collaborators}
  {h h' t t' : History} {cs cs' rest : List Candidate} {now now' : DateTime} {owner owner' : Ulid}
  {l : Hold} {spare : Bool} {found : Found} {r : Except AdmissionError Reservation}

/-! ## Two runs -/

theorem Kin.offers (hk : List.Forall₂ (Kin K) t t') : Admission.offers t' = Admission.offers t := by
  induction hk with
  | nil => rfl
  | @cons e e' t t' he _ ih =>
    have hhead : e'.call.offers? e'.answer = e.call.offers? e.answer := by
      cases he <;> rfl
    unfold Admission.offers at ih ⊢
    rw [List.filterMap_cons, List.filterMap_cons, hhead, ih]

/-- Candidates with different numbers have one order. -/
theorem ranked_of_perm (hp : cs'.Perm cs) (hn : (cs.map (·.id)).Nodup) :
    Policy.ranked cs' = Policy.ranked cs := by
  refine ranked_eq ((ranked_perm cs).trans hp.symm) (ranked_sorted cs) fun c hc d hd hid => ?_
  exact List.inj_on_of_nodup_map hn (hp.mem_iff.1 hc) (hp.mem_iff.1 hd) hid

/-- The two routines have runs that differ in the order of what is loaded, in dates and in
owners. -/
abbrev Similar (K : Kinship) (F F' : Behaviour collaborators) (k k' : Routine α) : Prop :=
  Strand.Parallel Release.program F F' (Kin K) k k'

namespace Reordered

variable (hF : Reordered K F F')
include hF

theorem agree : Strand.Agree (I := collaborators) F F' (List.Forall₂ (Kin K))
    (fun c : Call => c.isFixed = true) where
  answer h h' c hR hc := hF.fixed h h' c hR hc
  keep _ _ e hR := List.rel_append hR (.cons (.same e) .nil)

theorem plain {k : Routine α} (hk : Plain k) : Similar K F F' k k := by
  refine .of_concurs Kin.same ((hk.mono fun c hc => ?_).concurs hF.agree)
  cases c <;> first | exact hc | cases hc

theorem call {c : Call} {k k' : c.Answer → Routine α} (hc : c.isFixed = true)
    (hk : ∀ x, Similar K F F' (k x) (k' x)) : Similar K F F' (.call c k) (.call c k') := by
  refine .call fun h h' hR => ?_
  rw [hF.fixed h h' c hR hc]
  exact ⟨.same _, hk _⟩

/-- The writer refuses the same candidates in both walks, whatever it remembers. -/
theorem walk (hd : K.dates now now') (user : UInt64) (cs : List Candidate) :
    Similar K F F' (Policy.walk user now cs) (Policy.walk user now' cs) := by
  induction cs with
  | nil => exact .done _
  | cons c rest ih =>
    refine .call fun h h' hR => ?_
    rw [hF.create h h' c user now now' hR hd]
    refine ⟨.create hd, ?_⟩
    rcases F h (.create (.take c user now)) with e | _ | id
    · exact .done _
    · exact ih
    · exact .done _

/-- As many permits are asked for, and the candidates are offered in the same order. -/
theorem pooled (hp : cs'.Perm cs) (hr : Policy.ranked cs' = Policy.ranked cs) (user : UInt64)
    (key : SlotKey) :
    Similar K F F'
      ((p.takePermits key (Policy.permitCount cs)).bind fun
        | .error e => .done (.error e)
        | .ok spare => Program.owing (.permits spare key) <|
            .call .wallClock fun now => Policy.walk user now (Policy.ranked cs))
      ((p.takePermits key (Policy.permitCount cs')).bind fun
        | .error e => .done (.error e)
        | .ok spare => Program.owing (.permits spare key) <|
            .call .wallClock fun now => Policy.walk user now (Policy.ranked cs')) := by
  have hcount : Policy.permitCount cs' = Policy.permitCount cs := by
    unfold Policy.permitCount
    rw [hp.length_eq]
  rw [hcount, hr]
  refine (hF.plain (takePermits_plain key _)).bind fun r => ?_
  rcases r with e | spare
  · exact .done _
  · refine .owing (.call fun h h' hR => ?_) (hF.plain (giveBack_plain spare key))
    have hd := hF.wallClock h h' hR
    exact ⟨.wallClock hd, hF.walk hd user _⟩

theorem occupy (key : SlotKey) : Similar K F F' (p.occupy q key) (p.occupy q key) := by
  refine .call fun h h' hR => ?_
  have hq := hF.query h h' q.slot hR
  refine ⟨.query hq, ?_⟩
  obtain ⟨a, ha⟩ : ∃ a, F h (.query q.slot) = a := ⟨_, rfl⟩
  obtain ⟨a', ha'⟩ : ∃ a', F' h' (.query q.slot) = a' := ⟨_, rfl⟩
  rw [ha, ha'] at hq
  rw [ha, ha']
  cases hq with
  | same a =>
    rcases a with e | _ | ⟨c, cs⟩
    · exact .done _
    · exact .done _
    · exact hF.pooled (.refl _) rfl q.user key
  | @shuffled cs cs' hp hn =>
    cases cs with
    | nil =>
      cases hp.eq_nil
      exact .done _
    | cons c cs =>
      cases cs' with
      | nil => cases hp.symm.eq_nil
      | cons c' cs' => exact hF.pooled hp (ranked_of_perm hp hn) q.user key

theorem release (ho : K.owners owner owner') (key : SlotKey) :
    Similar K F F' (Release.lock key owner).program (Release.lock key owner').program := by
  refine .call fun h h' hR => ?_
  rw [hF.isHeldBy h h' key owner owner' hR ho]
  refine ⟨.isHeldBy ho, ?_⟩
  rcases F h (.isHeldBy key owner) with e | _ | _
  · exact hF.call rfl fun _ => .done _
  · exact .done _
  · refine .call fun h h' hR => ?_
    rw [hF.unlock h h' key owner owner' hR ho]
    refine ⟨.unlock ho, ?_⟩
    rcases F h (.unlock key owner) with e | _
    · exact hF.call rfl fun _ => .done _
    · exact .done _

theorem underLock {work : Routine (Except AdmissionError α)} (key : SlotKey) (wait : Duration)
    (hw : Similar K F F' work work) :
    Similar K F F' (Admission.underLock key wait work) (Admission.underLock key wait work) := by
  refine .call fun h h' hR => ?_
  have ho := hF.newOwner h h' hR
  refine ⟨.newOwner ho, .call fun h₁ h₁' hR₁ => ?_⟩
  rw [hF.lock h₁ h₁' key _ _ wait hR₁ ho]
  refine ⟨.lock ho, hF.call rfl fun _ => ?_⟩
  rcases F h₁ (.lock key (F h .newOwner) wait) with e | _ | _
  · dsimp only
    split
    · exact .done _
    · exact .done _
  · exact .done _
  · exact (hw.owing (hF.release ho key)).bind fun r => .done _

theorem underSpareLock {work : Routine (Except AdmissionError α)} (key : SlotKey) (wait : Duration)
    (hw : Similar K F F' work work) :
    Similar K F F' (Admission.underSpareLock key wait work)
      (Admission.underSpareLock key wait work) := by
  refine hF.call rfl fun a => hF.call rfl fun _ => ?_
  rcases a with e | _ | held
  · exact .done _
  · exact .done _
  · refine (hw.bind fun r => .done _).owing (hF.call rfl fun a => ?_)
    rcases a with e | _
    · exact hF.call rfl fun _ => .done _
    · exact .done _

theorem admitLocked (key : SlotKey) :
    Similar K F F' (p.admitLocked q key) (p.admitLocked q key) := by
  refine (hF.underLock key _ (hF.occupy key)).bind fun r => ?_
  rcases r with found | e
  · exact hF.plain (confirm_plain key false found)
  · dsimp only
    split
    · refine hF.call rfl fun _ => ?_
      refine (hF.underSpareLock key _ (hF.occupy key)).bind fun found => ?_
      exact hF.plain (confirm_plain key true found)
    · exact .done _

theorem reserve : Similar K F F' (p.reserve q) (p.reserve q) := by
  refine .bind (.bind (hF.plain checkEnabled_plain) fun r => ?_)
    fun r => hF.call rfl fun _ => .done _
  rcases r with e | _
  · exact .done _
  · refine .bind (hF.plain (takeToken_plain _)) fun r => ?_
    rcases r with e | _
    · exact .done _
    · exact hF.admitLocked _

end Reordered

/-! ## What is offered -/

theorem loads_snoc {c : Call} {a : c.Answer} :
    loads (h ++ [⟨c, a⟩]) = loads h ++ (c.loads? a).toList := by
  unfold loads
  rw [List.filterMap_append]
  cases hc : c.loads? a <;> simp [hc]

theorem admits_snoc {c : Call} {a : c.Answer} : admits (h ++ [⟨c, a⟩]) = (admits h || c.admits a) := by
  simp [admits]

theorem degraded_snoc {c : Call} {a : c.Answer} :
    degraded (h ++ [⟨c, a⟩]) = (degraded h || c.degrades a) := by
  simp [degraded]

theorem offers_snoc {c : Call} {a : c.Answer} :
    offers (h ++ [⟨c, a⟩]) = offers h ++ (c.offers? a).toList := by
  unfold offers
  rw [List.filterMap_append]
  cases hc : c.offers? a <;> simp [hc]

theorem filterMap_awaited {β : Type} {f : Asked collaborators → Option β}
    (hf : ∀ e, e.call.isAwaited = false → f e = none) (t : History) :
    (awaited t).filterMap f = t.filterMap f := by
  unfold awaited
  rw [List.filterMap_filter]
  refine congrArg (List.filterMap · t) (funext fun e => ?_)
  by_cases he : e.call.isAwaited = true
  · exact if_pos he
  · exact (if_neg he).trans (hf e (Bool.eq_false_iff.2 he)).symm

theorem any_awaited {f : Asked collaborators → Bool}
    (hf : ∀ e, e.call.isAwaited = false → f e = false) (t : History) :
    (awaited t).any f = t.any f := by
  unfold awaited
  rw [List.any_filter]
  refine congrArg (List.any t) (funext fun e => ?_)
  cases he : e.call.isAwaited
  · exact (hf e he).symm
  · rfl

/-- Nothing was offered so far, for want of permits. -/
structure Untried (spare : Bool) (h : History) : Prop where
  admits : admits h = false
  offers : offers h = []
  degraded : degraded h = spare

/-- Permits were granted for the candidates that were loaded. All are refused so far but `rest`. -/
structure Trying (q : Request) (spare : Bool) (h : History) (rest : List Candidate) : Prop where
  admits : admits h = true
  degraded : degraded h = spare
  tried : ∃ cs passed, loads h = [cs] ∧ Policy.ranked cs = passed ++ rest ∧
    offers h = passed.map (offerOf q (.ok none))

/-- Nothing more will be offered. -/
structure Settled (p : Policy) (q : Request) (spare : Bool) (h : History) (found : Found) :
    Prop where
  ordered : Ordered p q h found
  degraded : degraded h = spare

/-- What was loaded, granted and offered by the time of a phase. -/
def Phase.Tried (p : Policy) (q : Request) (h : History) : Phase → Prop
  | locked l => loads h = [] ∧ Untried l.isSpare h
  | pooling l cs _ => loads h = [cs] ∧ Untried l.isSpare h
  | walking l _ rest => Trying q l.isSpare h rest
  | walked l _ found => Settled p q l.isSpare h found
  | leaving l found => Settled p q l.isSpare h found
  | unlocking _ found => Settled p q false h found
  | ended r => Concludes p q h r
  | _ => loads h = [] ∧ Untried false h

theorem sorted_ranked (cs : List Candidate) :
    (Policy.ranked cs).Pairwise fun a b => a.id ≤ b.id :=
  (ranked_sorted cs).imp fun h => of_decide_eq_true h

theorem verdict_eq_returned : verdict q found l = returned q found l.isSpare := by
  cases l <;> rfl

/-- Who ends a reservation neither grants permits nor is offered anything. -/
theorem Policy.quiet_of_stop? {c : Call} {a : c.Answer} {e : AdmissionError}
    (hs : p.stop? c a = some e) :
    c.admits a = false ∧ c.offers? a = none ∧ c.degrades a = false := by
  unfold Policy.stop? at hs
  split at hs <;> first | exact ⟨rfl, rfl, rfl⟩ | cases hs

theorem Untried.snoc {c : Call} {a : c.Answer} (hu : Untried spare h) (ha : c.admits a = false)
    (ho : c.offers? a = none) (hd : c.degrades a = false) : Untried spare (h ++ [⟨c, a⟩]) where
  admits := by rw [admits_snoc, hu.admits, ha, Bool.or_false]
  offers := by rw [offers_snoc, hu.offers, ho, Option.toList_none, List.append_nil]
  degraded := by rw [degraded_snoc, hu.degraded, hd, Bool.or_false]

theorem Untried.stops {c : Call} {a : c.Answer} {e : AdmissionError} (hu : Untried spare h)
    (hs : p.stop? c a = some e) : Settled p q spare (h ++ [⟨c, a⟩]) (.error e) := by
  obtain ⟨ha, ho, hd⟩ := Policy.quiet_of_stop? hs
  have hu' : Untried spare (h ++ [⟨c, a⟩]) := hu.snoc ha ho hd
  exact ⟨.idle (List.mem_append_right _ (List.mem_singleton_self _)) hs hu'.admits hu'.offers,
    hu'.degraded⟩

theorem Settled.concludes (hs : Settled p q spare h found) :
    Concludes p q h (returned q found spare) :=
  ⟨found, hs.ordered, by rw [hs.degraded]⟩

theorem Settled.snoc {c : Call} {a : c.Answer} (hs : Settled p q spare h found)
    (hl : c.loads? a = none) (ha : c.admits a = false) (hc : c.offers? a = none)
    (hd : c.degrades a = false) : Settled p q spare (h ++ [⟨c, a⟩]) found where
  ordered := by
    have hloads : loads (h ++ [⟨c, a⟩]) = loads h := by
      rw [loads_snoc, hl, Option.toList_none, List.append_nil]
    have hadmits : Admission.admits (h ++ [⟨c, a⟩]) = admits h := by
      rw [admits_snoc, ha, Bool.or_false]
    have hoffers : offers (h ++ [⟨c, a⟩]) = offers h := by
      rw [offers_snoc, hc, Option.toList_none, List.append_nil]
    cases hs.ordered with
    | idle hx he h₁ h₂ =>
      exact .idle (List.mem_append_left _ hx) he (hadmits.trans h₁) (hoffers.trans h₂)
    | exhausted h₁ h₂ h₃ h₄ h₅ =>
      exact .exhausted (hloads.trans h₁) (hadmits.trans h₂) h₃ h₄ (hoffers.trans h₅)
    | settled h₁ h₂ h₃ h₄ h₅ h₆ =>
      exact .settled (hloads.trans h₁) (hadmits.trans h₂) h₃ h₄ (hoffers.trans h₅) h₆
  degraded := by rw [degraded_snoc, hs.degraded, hd, Bool.or_false]

/-- The next candidate is up, or all were refused. -/
theorem Trying.offer (ht : Trying q l.isSpare h rest) :
    (Phase.offer l spare rest).Tried p q h := by
  cases rest with
  | nil =>
    obtain ⟨cs, passed, hl, hr, ho⟩ := ht.tried
    rw [List.append_nil] at hr
    subst hr
    exact ⟨.exhausted hl ht.admits (ranked_perm cs) (sorted_ranked cs) ho, ht.degraded⟩
  | cons c rest => exact ht

theorem Trying.passes {c : Candidate} (ht : Trying q spare h (c :: rest)) :
    Trying q spare (h ++ [⟨.create (.take c q.user now), .ok none⟩]) rest where
  admits := by rw [admits_snoc, ht.admits, Bool.true_or]
  degraded := by rw [degraded_snoc, ht.degraded]; exact Bool.or_false _
  tried := by
    obtain ⟨cs, passed, hl, hr, ho⟩ := ht.tried
    refine ⟨cs, passed ++ [c], ?_, ?_, ?_⟩
    · rw [loads_snoc, hl]
      rfl
    · rw [hr, List.append_cons]
    · rw [offers_snoc, ho, List.map_append]
      rfl

theorem Trying.settles {c : Candidate} {a : Except StoreError (Option UInt64)}
    (ht : Trying q spare h (c :: rest)) (ha : found? c a = some found) :
    Settled p q spare (h ++ [⟨.create (.take c q.user now), a⟩]) found where
  ordered := by
    obtain ⟨cs, passed, hl, hr, ho⟩ := ht.tried
    have hloads : loads (h ++ [⟨.create (.take c q.user now), a⟩]) = [cs] := by
      rw [loads_snoc, hl]
      rfl
    have hadmits : Admission.admits (h ++ [⟨.create (.take c q.user now), a⟩]) = true := by
      rw [admits_snoc, ht.admits, Bool.true_or]
    have hoffers : offers (h ++ [⟨.create (.take c q.user now), a⟩]) =
        passed.map (offerOf q (.ok none)) ++ [offerOf q a c] := by
      rw [offers_snoc, ho]
      rfl
    exact .settled hloads hadmits (hr ▸ ranked_perm cs) (hr ▸ sorted_ranked cs) hoffers ha
  degraded := by rw [degraded_snoc, ht.degraded]; exact Bool.or_false _

theorem Phase.Moves.tried {φ ψ : Phase} {c : Call} {a : c.Answer} (hm : φ.Moves p q c a ψ)
    (ht : φ.Tried p q h) : ψ.Tried p q (h ++ [⟨c, a⟩]) := by
  cases hm with
  | enabled | rated | rateFallsBack | locks | lockFallsBack =>
    exact ⟨by rw [loads_snoc, ht.1]; rfl, ht.2.snoc rfl rfl rfl⟩
  | spareLocks held =>
    refine ⟨by rw [loads_snoc, ht.1]; rfl, ?_, ?_, ?_⟩
    · rw [admits_snoc, ht.2.admits]
      rfl
    · rw [offers_snoc, ht.2.offers]
      rfl
    · rw [degraded_snoc]
      exact Bool.or_true _
  | disabled => exact (ht.2.stops rfl).concludes
  | rateFails spare e hs => exact (ht.2.stops hs).concludes
  | lockFails owner e hs => exact (ht.2.stops hs).concludes
  | spareLockFails e hs => exact (ht.2.stops hs).concludes
  | finds l c cs => exact ⟨by rw [loads_snoc, ht.1]; rfl, ht.2.snoc rfl rfl rfl⟩
  | findsNone l e hs => exact ht.2.stops hs
  | admits l cs spare =>
    refine Trying.offer ⟨?_, ?_, cs, [], ?_, rfl, ?_⟩
    · rw [admits_snoc]
      exact Bool.or_true _
    · rw [degraded_snoc, ht.2.degraded]
      exact Bool.or_false _
    · rw [loads_snoc, ht.1]
      rfl
    · rw [offers_snoc, ht.2.offers]
      rfl
  | permitsFallBack l cs _ => exact ⟨by rw [loads_snoc, ht.1]; rfl, ht.2.snoc rfl rfl rfl⟩
  | permitsFail l cs spare e hs => exact ht.2.stops hs
  | takes | breaks => exact ht.settles rfl
  | passes => exact ht.passes.offer
  | givesBack | holds => exact ht.snoc rfl rfl rfl rfl
  | holdsNot | spareUnlocks | unlocks =>
    exact verdict_eq_returned ▸ (ht.snoc rfl rfl rfl rfl).concludes

theorem Course.tried {φ : Phase} (hc : Course p q (.start p) h φ) : φ.Tried p q h := by
  induction hc with
  | here =>
    unfold Phase.start
    split
    · exact ⟨rfl, rfl, rfl, rfl⟩
    · exact ⟨rfl, rfl, rfl, rfl⟩
  | ask a _ ha ih => exact (ha.moves a).tried ih

/-- Whoever answers, a reservation offers what was loaded in order, and returns what it found. -/
theorem reserve_concludes
    (he : Strand.Ends Release.program F [] ⟨p.reserve q, []⟩ t r []) : Concludes p q t r := by
  obtain ⟨φ, hc, -, ho⟩ := reserve_course he.leads
  obtain ⟨-, rfl⟩ := ho r rfl
  obtain ⟨found, hordered, hr⟩ : Concludes p q (awaited t) r := hc.tried
  have hloads : loads (awaited t) = loads t :=
    filterMap_awaited (fun ⟨c, a⟩ hc => by cases c <;> first | rfl | cases hc) t
  have hoffers : offers (awaited t) = offers t :=
    filterMap_awaited (fun ⟨c, a⟩ hc => by cases c <;> first | rfl | cases hc) t
  have hadmits : admits (awaited t) = admits t :=
    any_awaited (fun ⟨c, a⟩ hc => by cases c <;> first | rfl | cases hc) t
  have hdegraded : degraded (awaited t) = degraded t :=
    any_awaited (fun ⟨c, a⟩ hc => by cases c <;> first | rfl | cases hc) t
  refine ⟨found, ?_, hdegraded ▸ hr⟩
  cases hordered with
  | idle hx he h₁ h₂ => exact .idle (List.mem_of_mem_filter hx) he (hadmits ▸ h₁) (hoffers ▸ h₂)
  | exhausted h₁ h₂ h₃ h₄ h₅ =>
    exact .exhausted (hloads ▸ h₁) (hadmits ▸ h₂) h₃ h₄ (hoffers ▸ h₅)
  | settled h₁ h₂ h₃ h₄ h₅ h₆ =>
    exact .settled (hloads ▸ h₁) (hadmits ▸ h₂) h₃ h₄ (hoffers ▸ h₅) h₆

/-- Two reservations of one request, with the same candidates in different orders: they make the
same calls up to this order and to dates, offer the same in order and return the same. -/
theorem reserve_reordered (p : Policy) (q : Request) (hF : Reordered K F F') :
    ∃ t t' r, Strand.Ends Release.program F [] ⟨p.reserve q, []⟩ t r [] ∧
      Strand.Ends Release.program F' [] ⟨p.reserve q, []⟩ t' r [] ∧
      List.Forall₂ (Kin K) t t' ∧ offers t' = offers t ∧ Concludes p q t r ∧
      Concludes p q t' r := by
  obtain ⟨t, t', r, ht, he⟩ := hF.reserve (p := p) (q := q) [] [] .nil
  obtain ⟨hrun, hrun'⟩ := he [] []
  exact ⟨t, t', r, hrun, hrun', ht, Kin.offers ht, reserve_concludes hrun, reserve_concludes hrun'⟩

end

/-! ## Any writer -/

/-- The writer answers in view of all that it was offered, dates apart. The loader returns a fixed
list for each slot, and the locks do not care who asks. -/
def staged
    (write : List (Occupancy × Except StoreError (Option UInt64)) → Occupancy →
      Except StoreError (Option UInt64))
    (load : Slot → List Candidate) (clock : History → DateTime) (owner : History → Ulid)
    (rest : (c : Call) → c.Answer) : Behaviour collaborators := fun h c =>
  match c with
  | .query slot => .ok (load slot)
  | .create entry => write (offers h) entry.undated
  | .wallClock => clock h
  | .newOwner => owner h
  | .lock key _ wait => rest (.lock key (.ofNat 0) wait)
  | .isHeldBy key _ => rest (.isHeldBy key (.ofNat 0))
  | .unlock key _ => rest (.unlock key (.ofNat 0))
  | c => rest c

/-- Any such writer will do, with any clocks and any owners. -/
theorem staged_reordered
    {write : List (Occupancy × Except StoreError (Option UInt64)) → Occupancy →
      Except StoreError (Option UInt64)}
    {load load' : Slot → List Candidate} {clock clock' : History → DateTime}
    {owner owner' : History → Ulid} {rest : (c : Call) → c.Answer}
    (hp : ∀ slot, (load' slot).Perm (load slot)) (hn : ∀ slot, ((load slot).map (·.id)).Nodup) :
    Reordered ⟨fun _ _ => True, fun _ _ => True⟩ (staged write load clock owner rest)
      (staged write load' clock' owner' rest) where
  query _ _ slot _ := .shuffled (hp slot) (hn slot)
  wallClock _ _ _ := trivial
  create h h' c user now now' hR _ := by
    show write (offers h') _ = write (offers h) _
    rw [Kin.offers hR]
    rfl
  newOwner _ _ _ := trivial
  lock _ _ _ _ _ _ _ _ := rfl
  isHeldBy _ _ _ _ _ _ _ := rfl
  unlock _ _ _ _ _ _ _ := rfl
  fixed _ _ c _ hc := by cases c <;> first | rfl | cases hc

namespace Sample

def tables : List Candidate :=
  [⟨7, 1, 2, .epoch, .midnight⟩, ⟨3, 1, 4, .epoch, .midnight⟩, ⟨5, 1, 6, .epoch, .midnight⟩]

/-- The writer refuses what it is offered first. -/
def pickyWriter (offered : List (Occupancy × Except StoreError (Option UInt64))) (_ : Occupancy) :
    Except StoreError (Option UInt64) :=
  if offered = [] then .ok none else .ok (some 1)

def inOrder : Behaviour collaborators :=
  staged pickyWriter (fun _ => tables) (fun _ => ⟨.epoch, .midnight⟩) (fun _ => .ofNat 1) answer

def noon : TimeOfDay := (TimeOfDay.ofClock? 12 0 0 0).getD .midnight

/-- At noon, under another owner. -/
def inReverse : Behaviour collaborators :=
  staged pickyWriter (fun _ => tables.reverse) (fun _ => ⟨.epoch, noon⟩) (fun _ => .ofNat 2) answer

/-- The second of the tables by their numbers. -/
def second : Reservation := ⟨1, 5, 6, request.slot.key, false⟩

end Sample

/-- Table 3 is offered and refused, and table 5 is taken. -/
theorem sample_reordered :
    Reordered ⟨fun _ _ => True, fun _ _ => True⟩ Sample.inOrder Sample.inReverse ∧
      ∃ t t',
        Strand.Ends Release.program Sample.inOrder [] ⟨Sample.policy.reserve Sample.request, []⟩ t
          (.ok Sample.second) [] ∧
        Strand.Ends Release.program Sample.inReverse []
          ⟨Sample.policy.reserve Sample.request, []⟩ t' (.ok Sample.second) [] ∧
        List.Forall₂ (Kin ⟨fun _ _ => True, fun _ _ => True⟩) t t' ∧ offers t' = offers t ∧
        (offers t).map (fun o => (o.1.candidate, o.2)) = [(3, .ok none), (5, .ok (some 1))] ∧
        Concludes Sample.policy Sample.request t (.ok Sample.second) ∧
        Concludes Sample.policy Sample.request t' (.ok Sample.second) := by
  have hF : Reordered ⟨fun _ _ => True, fun _ _ => True⟩ Sample.inOrder Sample.inReverse :=
    staged_reordered (fun _ => List.reverse_perm _) fun _ => by decide
  obtain ⟨t, t', r, ht, ht', hk, ho, hc, hc'⟩ := reserve_reordered Sample.policy Sample.request hF
  have hr : r = .ok Sample.second :=
    ht.eq_of_trial (n := 40) (f := fun x => x.2.1) (by cbv)
  have hoffers : (offers t).map (fun o => (o.1.candidate, o.2)) =
      [(3, .ok none), (5, .ok (some 1))] :=
    ht.eq_of_trial (n := 40) (f := fun x => (offers x.1).map fun o => (o.1.candidate, o.2))
      (by cbv)
  subst hr
  exact ⟨hF, t, t', ht, ht', hk, ho, hoffers, hc, hc'⟩

end Admission

end Turnstile
