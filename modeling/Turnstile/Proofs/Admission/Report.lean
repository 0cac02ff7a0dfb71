import Mathlib.Algebra.BigOperators.Group.Finset.Piecewise
import Turnstile.Proofs.Admission.Booking
import Turnstile.Proofs.Admission.Fallback

/-!
# What was persisted is reported, once

Whoever answers, and whatever fails before the entry or after it: a reservation returns well if
and only if the writer accepted an entry of it, it does not offer another one afterwards, and the
publisher is told once (`Reported`). Each part of the program `Yields` what its trace can hold of
entries and events; the releases hold nothing of either, so that no failure in them changes what is
returned. For all reservations of a crowd that returned the counts agree (`Tallied`).
-/

namespace Turnstile.Admission

/-- The entries that the writer accepted, and their numbers. -/
def persisted (t : History) : List (Occupancy × UInt64) :=
  t.filterMap fun e => e.call.accepts e.answer

def Call.event? : Call → Option Event
  | publish event => some event
  | _ => none

/-- The events that the publisher was told. -/
def published (t : History) : List Event := t.filterMap fun e => e.call.event?

def Call.isCreate : Call → Bool
  | create _ => true
  | _ => false

/-- What a reservation that returns `r` after the trace `t` has persisted and reported. -/
structure Reported (p : Policy) (q : Request) (t : History)
    (r : Except AdmissionError Reservation) : Prop where
  /-- It returns well if and only if an entry was accepted. -/
  iff : (∃ res, r = .ok res) ↔ persisted t ≠ []
  /-- The entry is the only one that was accepted, and the last that was offered. It is for a
  candidate that the query had returned. -/
  told : ∀ res, r = .ok res → ∃ u c now v,
    t = u ++ ⟨.create (.take c q.user now), .ok (some res.occupancy)⟩ :: v ∧ persisted u = [] ∧
      (∀ e ∈ v, e.call.isCreate = false) ∧ (∃ cs, ⟨.query q.slot, .ok cs⟩ ∈ u ∧ c ∈ cs) ∧
      res.candidate = c.id ∧ res.table = c.table ∧ res.key = q.slot.key ∧
      (res.degraded = true ↔ ∃ key wait held, ⟨.spareLock key wait, .ok (some held)⟩ ∈ t) ∧
      published t = if p.hasPublisher then
        [.occupied res.occupancy c.restaurant c.table q.user q.slot.key] else []
  silent : ∀ e, r = .error e → published t = []

/-- The call has to do neither with entries nor with events nor with the substitute lock. -/
def Call.isQuiet : Call → Bool
  | create _ => false
  | publish _ => false
  | spareLock _ _ => false
  | _ => true

def Quiet (t : History) : Prop := ∀ e ∈ t, e.call.isQuiet = true

/-- A quiet call, or an entry that was not accepted. -/
def Vain (e : Asked collaborators) : Prop :=
  e.call.isQuiet = true ∨ ∃ entry a, e = ⟨.create entry, a⟩ ∧ ∀ id, a ≠ .ok (some id)

/-- The work under a lock makes the calls and comes to what it found. -/
inductive Finds (q : Request) : History → Found → Prop
  | taken {u v : History} {c : Candidate} {cs : List Candidate} {now : DateTime} {id : UInt64} :
    (∀ e ∈ u, Vain e) → Quiet v → ⟨.query q.slot, .ok cs⟩ ∈ u → c ∈ cs →
    Finds q (u ++ ⟨.create (.take c q.user now), .ok (some id)⟩ :: v) (.ok (id, c))
  | failed {u : History} {e : AdmissionError} : (∀ e ∈ u, Vain e) → Finds q u (.error e)

/-- A reservation makes the calls and returns what it does. Without a lock it fails. -/
inductive Tells (p : Policy) (q : Request) : History → Except AdmissionError Reservation → Prop
  | fair {u v : History} {found : Found} : Finds q u found → Quiet v →
    Tells p q (u ++ announcement p q found ++ v) (found.map (reservation q false))
  | spare {w u v : History} {a : Except GuardError (Option Held)} {found : Found} :
    Quiet w → (∀ x, found = .ok x → ∃ held, a = .ok (some held)) → Finds q u found → Quiet v →
    Tells p q (w ++ ⟨.spareLock q.slot.key p.settings.spareLockWait, a⟩ :: u ++
      announcement p q found ++ v) (found.map (reservation q true))

section

variable {α : Type} {p : Policy} {q : Request} {t u v w : History} {found : Found}
  {r : Except AdmissionError Reservation} {e : Asked collaborators}

/-! ## Calls that are quiet or in vain -/

namespace Quiet

theorem nil : Quiet [] := List.forall_mem_nil _

theorem append (hu : Quiet u) (hv : Quiet v) : Quiet (u ++ v) := List.forall_mem_append.2 ⟨hu, hv⟩

theorem cons (he : e.call.isQuiet = true) (hu : Quiet u) : Quiet (e :: u) :=
  List.forall_mem_cons.2 ⟨he, hu⟩

theorem vain (hu : Quiet u) : ∀ e ∈ u, Vain e := fun e he => .inl (hu e he)

theorem not_create (hu : Quiet u) : ∀ e ∈ u, e.call.isCreate = false := by
  rintro ⟨c, a⟩ he
  have hq : c.isQuiet = true := hu _ he
  cases c with
  | create => cases hq
  | _ => rfl

end Quiet

theorem Vain.accepts (h : Vain e) : e.call.accepts e.answer = none := by
  rcases h with h | ⟨entry, a, rfl, ha⟩
  · obtain ⟨c, a⟩ := e
    cases c with
    | create => cases h
    | _ => rfl
  · rcases a with e | _ | id
    · rfl
    · rfl
    · exact absurd rfl (ha id)

theorem Vain.event? (h : Vain e) : e.call.event? = none := by
  rcases h with h | ⟨entry, a, rfl, -⟩
  · obtain ⟨c, a⟩ := e
    cases c with
    | publish => cases h
    | _ => rfl
  · rfl

theorem Vain.ne_spareLock {key : SlotKey} {wait : Duration} {a : Except GuardError (Option Held)}
    (h : Vain e) : e ≠ ⟨.spareLock key wait, a⟩ := by
  rintro rfl
  rcases h with h | ⟨entry, b, he, -⟩
  · cases h
  · cases he

theorem persisted_append : persisted (u ++ v) = persisted u ++ persisted v := List.filterMap_append ..

theorem published_append : published (u ++ v) = published u ++ published v := List.filterMap_append ..

theorem persisted_vain (hu : ∀ e ∈ u, Vain e) : persisted u = [] :=
  List.filterMap_eq_nil_iff.2 fun e he => (hu e he).accepts

theorem published_vain (hu : ∀ e ∈ u, Vain e) : published u = [] :=
  List.filterMap_eq_nil_iff.2 fun e he => (hu e he).event?

theorem persisted_announcement : persisted (announcement p q found) = [] := by
  rcases found with e | ⟨id, c⟩
  · rfl
  · unfold announcement
    dsimp only
    split <;> rfl

namespace Finds

theorem after (hw : Quiet w) (hf : Finds q u found) : Finds q (w ++ u) found := by
  cases hf with
  | taken hu hv hq hc =>
    rw [← List.append_assoc]
    exact .taken (List.forall_mem_append.2 ⟨hw.vain, hu⟩) hv (List.mem_append_right _ hq) hc
  | failed hu => exact .failed (List.forall_mem_append.2 ⟨hw.vain, hu⟩)

theorem before (hf : Finds q u found) (hw : Quiet w) : Finds q (u ++ w) found := by
  cases hf with
  | taken hu hv hq hc =>
    rw [List.append_assoc, List.cons_append]
    exact .taken hu (hv.append hw) hq hc
  | failed hu => exact .failed (List.forall_mem_append.2 ⟨hu, hw.vain⟩)

theorem unprocessable (hf : Finds q u found) : Finds q u (found.mapError unprocessable) := by
  cases hf with
  | taken hu hv hq hc => exact .taken hu hv hq hc
  | failed hu => exact .failed hu

end Finds

/-! ## What the parts of a reservation do -/

abbrev Yields (P : History → α → Prop) (k : Routine α) : Prop :=
  Strand.Yields (I := collaborators) Release.program P k

theorem checkEnabled_yields : Yields (fun u _ => Quiet u) p.checkEnabled := by
  unfold Policy.checkEnabled
  split
  · refine .call fun a => ?_
    rcases a with e | _ | _ <;> exact .done (.cons rfl .nil)
  · exact .done .nil

theorem takeToken_yields : Yields (fun u _ => Quiet u) (p.takeToken q.slot.key) := by
  refine .call fun a => ?_
  rcases a with e | b
  · dsimp only
    split
    · exact .call fun _ => .call fun _ => .done (.cons rfl (.cons rfl (.cons rfl .nil)))
    · exact .done (.cons rfl .nil)
  · exact .done (.cons rfl .nil)

theorem permitVerdict_yields (spare : Bool) (a : Except GuardError Bool) :
    Yields (fun u _ => Quiet u) (Policy.permitVerdict spare a) := by
  rcases a with e | b
  · exact .done .nil
  · exact .call fun _ => .done (.cons rfl .nil)

theorem takePermits_yields (n : UInt32) :
    Yields (fun u _ => Quiet u) (p.takePermits q.slot.key n) := by
  refine .call fun a => ?_
  rcases a with e | b
  · dsimp only
    split
    · refine .call fun _ => .call fun a => (permitVerdict_yields true a).mono fun u _ hu => ?_
      exact .cons rfl (.cons rfl (.cons rfl hu))
    · exact .done (.cons rfl .nil)
  · exact (permitVerdict_yields false _).mono fun u _ hu => .cons rfl hu

/-- After calls in vain, in which the candidates were found, the walk is what is left to do. -/
theorem walk_yields {cs : List Candidate} {now : DateTime} (rest : List Candidate)
    (hu : ∀ e ∈ u, Vain e) (hq : ⟨.query q.slot, .ok cs⟩ ∈ u) (hcs : ∀ c ∈ rest, c ∈ cs) :
    Yields (fun v found => Finds q (u ++ v) found) (Policy.walk q.user now rest) := by
  induction rest generalizing u with
  | nil => exact .done (.failed (by rwa [List.append_nil]))
  | cons c rest ih =>
    refine .call fun a => ?_
    have hvain : (∀ id, a ≠ .ok (some id)) → ∀ e ∈ u ++ [⟨.create (.take c q.user now), a⟩], Vain e :=
      fun ha => List.forall_mem_append.2 ⟨hu, by simpa using .inr ⟨_, a, rfl, ha⟩⟩
    rcases a with e | _ | id
    · exact .done (.failed (hvain nofun))
    · refine (ih (hvain nofun) (List.mem_append_left _ hq) fun c' hc' =>
        hcs c' (List.mem_cons_of_mem _ hc')).mono fun v found hf => ?_
      rwa [List.append_assoc] at hf
    · exact .done (.taken hu .nil hq (hcs c (List.mem_cons_self ..)))

theorem noteFailure_yields {ε : Type} (guard : GuardName) (a : Except ε Bool) :
    Yields (fun u _ => Quiet u) (Release.noteFailure guard a) := by
  cases a with
  | ok b => exact .done .nil
  | error e => exact .call fun _ => .done (.cons rfl .nil)

/-- A release has nothing to do with entries, whatever fails in it. -/
theorem release_yields (x : Release) : Yields (fun u _ => Quiet u) x.program := by
  cases x with
  | lock key owner =>
    refine .call fun a => ?_
    rcases a with e | _ | _
    · exact (noteFailure_yields .lock _).mono fun u _ hu => .cons rfl hu
    · exact .done (.cons rfl .nil)
    · exact .call fun a =>
        (noteFailure_yields .lock a).mono fun u _ hu => .cons rfl (.cons rfl hu)
  | spareLock held =>
    exact .call fun a => (noteFailure_yields .spareLock _).mono fun u _ hu => .cons rfl hu
  | permits spare key =>
    exact .call fun a => (noteFailure_yields .permits _).mono fun u _ hu => .cons rfl hu

theorem owing_yields {x : Release} {k : Routine Found} (hk : Yields (Finds q) k) :
    Yields (Finds q) (k.owing x) :=
  hk.owing fun _ _ hf => (release_yields x).mono fun _ _ hv => hf.before hv

theorem occupy_yields : Yields (Finds q) (p.occupy q q.slot.key) := by
  refine .call fun a => ?_
  rcases a with e | _ | ⟨c, cs⟩
  · exact .done (.failed (Quiet.cons rfl .nil).vain)
  · exact .done (.failed (Quiet.cons rfl .nil).vain)
  · refine (takePermits_yields _).bind fun r u hu => ?_
    rcases r with e | spare
    · refine .done (.failed (Quiet.cons rfl ?_).vain)
      rwa [List.append_nil]
    · -- The walk is the only part that offers entries, so all before it is quiet.
      refine Strand.Yields.owing (P := fun v found =>
        Finds q (⟨.query q.slot, .ok (c :: cs)⟩ :: (u ++ v)) found) (.call fun now => ?_) ?_
      · have hquiet : Quiet (⟨.query q.slot, .ok (c :: cs)⟩ :: u ++ [⟨.wallClock, now⟩]) :=
          .append (.cons rfl hu) (.cons rfl .nil)
        have hquery : ⟨.query q.slot, .ok (c :: cs)⟩ ∈ ⟨.query q.slot, .ok (c :: cs)⟩ :: u ++
            [(⟨.wallClock, now⟩ : Asked collaborators)] := List.mem_cons_self ..
        refine (walk_yields _ hquiet.vain hquery fun c' hc' => ?_).mono fun v found hf => ?_
        · exact List.mem_mergeSort.1 hc'
        · rwa [List.append_assoc] at hf
      · intro found v hf
        refine (release_yields _).mono fun w _ hw => ?_
        have hf := hf.before hw
        rwa [List.cons_append, List.append_assoc] at hf

theorem underLock_yields :
    Yields (fun u r => match r with
      | .completed found => Finds q u found
      | .unreachable _ => Quiet u)
      (underLock q.slot.key p.settings.lockWait (p.occupy q q.slot.key)) := by
  refine .call fun owner => .call fun a => .call fun _ => ?_
  have hquiet : Quiet [⟨.newOwner, owner⟩, ⟨.lock q.slot.key owner p.settings.lockWait, a⟩,
      ⟨.note (.waited .lock), ()⟩] := .cons rfl (.cons rfl (.cons rfl .nil))
  rcases a with e | _ | _
  · dsimp only
    split
    · exact .done hquiet
    · exact .done (.failed hquiet.vain)
  · exact .done (.failed hquiet.vain)
  · refine (owing_yields occupy_yields).bind fun found u hf => .done ?_
    have hf := hf.after hquiet
    rwa [← List.append_nil u] at hf

theorem underSpareLock_yields :
    Yields (fun u found => ∃ a v,
      u = ⟨.spareLock q.slot.key p.settings.spareLockWait, a⟩ :: v ∧ Finds q v found ∧
        ∀ x, found = .ok x → ∃ held, a = .ok (some held))
      (underSpareLock q.slot.key p.settings.spareLockWait (p.occupy q q.slot.key)) := by
  refine .call fun a => .call fun _ => ?_
  have hquiet : Quiet [⟨.note (.waited .spareLock), ()⟩] := .cons rfl .nil
  rcases a with e | _ | held
  · exact .done ⟨_, _, rfl, .failed hquiet.vain, fun _ hx => nomatch hx⟩
  · exact .done ⟨_, _, rfl, .failed hquiet.vain, fun _ hx => nomatch hx⟩
  · have hwork : Yields (Finds q)
        ((p.occupy q q.slot.key).bind fun r => .done (r.mapError unprocessable)) := by
      refine occupy_yields.bind fun found u hf => .done ?_
      rw [List.append_nil]
      exact hf.unprocessable
    refine (owing_yields hwork).mono fun u found hf => ?_
    exact ⟨_, _, rfl, hf.after hquiet, fun _ _ => ⟨held, rfl⟩⟩

theorem confirm_yields (degraded : Bool) (found : Found) :
    Yields (fun u r => u = announcement p q found ∧ r = found.map (reservation q degraded))
      (p.confirm q q.slot.key degraded found) := by
  rcases found with e | ⟨id, c⟩
  · exact .done ⟨rfl, rfl⟩
  · unfold Policy.confirm announcement
    dsimp only
    split
    · exact .call fun _ => .done ⟨rfl, rfl⟩
    · exact .done ⟨rfl, rfl⟩

namespace Tells

theorem fails {e : AdmissionError} (hu : Quiet u) : Tells p q u (.error e) := by
  have h : Tells p q (u ++ announcement p q (.error e) ++ []) _ := .fair (.failed hu.vain) .nil
  rwa [announcement, List.append_nil, List.append_nil] at h

theorem after (hw : Quiet w) (ht : Tells p q u r) : Tells p q (w ++ u) r := by
  cases ht with
  | fair hf hv =>
    rw [← List.append_assoc, ← List.append_assoc]
    exact .fair (hf.after hw) hv
  | spare hw' ha hf hv =>
    rw [← List.append_assoc, ← List.append_assoc, ← List.append_assoc]
    exact .spare (hw.append hw') ha hf hv

theorem before (ht : Tells p q u r) (hw : Quiet w) : Tells p q (u ++ w) r := by
  cases ht with
  | fair hf hv =>
    rw [List.append_assoc]
    exact .fair hf (hv.append hw)
  | spare hw' ha hf hv =>
    rw [List.append_assoc]
    exact .spare hw' ha hf (hv.append hw)

end Tells

theorem admitLocked_yields : Yields (Tells p q) (p.admitLocked q q.slot.key) := by
  refine underLock_yields.bind ?_
  rintro (found | e) u hu
  · refine (confirm_yields false found).mono ?_
    rintro v r ⟨rfl, rfl⟩
    rw [← List.append_nil (u ++ _)]
    exact .fair hu .nil
  · dsimp only
    split
    · refine .call fun _ => underSpareLock_yields.bind ?_
      rintro found v ⟨a, v, rfl, hf, ha⟩
      refine (confirm_yields true found).mono ?_
      rintro w r ⟨rfl, rfl⟩
      have hquiet : Quiet (u ++ [⟨.note (.fellBack .lock), ()⟩]) := hu.append (.cons rfl .nil)
      have h := Tells.spare (p := p) hquiet ha hf .nil
      simpa only [List.append_assoc, List.cons_append, List.nil_append, List.append_nil] using h
    · exact .done (.fails (hu.append .nil))

theorem reserve_yields : Yields (Tells p q) (p.reserve q) := by
  refine Strand.Yields.bind (P := Tells p q) ?_ fun r u hu => ?_
  · refine checkEnabled_yields.bind fun a u hu => ?_
    rcases a with e | _
    · exact .done (.fails (hu.append .nil))
    · refine Strand.Yields.mono (P := Tells p q) (takeToken_yields.bind fun a v hv => ?_)
        fun v r ht => ht.after hu
      rcases a with e | _
      · exact .done (.fails (hv.append .nil))
      · exact admitLocked_yields.mono fun w r hw => hw.after hv
  · exact .call fun _ => .done (hu.before (.cons rfl .nil))

/-! ## What a reservation has reported -/

theorem accepts_taken {c : Candidate} {now : DateTime} {id : UInt64} :
    persisted [⟨.create (.take c q.user now), .ok (some id)⟩] = [(.take c q.user now, id)] :=
  rfl

theorem Finds.persisted_eq_nil (hf : Finds q u found) :
    persisted u = [] ↔ ∃ e, found = .error e := by
  cases hf with
  | taken hu hv hq hc =>
    rw [List.append_cons, persisted_append, persisted_append, persisted_vain hu, accepts_taken]
    simp
  | failed hu => simp [persisted_vain hu]

theorem Finds.published_eq_nil (hf : Finds q u found) : published u = [] := by
  cases hf with
  | taken hu hv hq hc =>
    rw [List.append_cons, published_append, published_append, published_vain hu,
      published_vain hv.vain]
    rfl
  | failed hu => exact published_vain hu

theorem Finds.ne_spareLock {key : SlotKey} {wait : Duration}
    {a : Except GuardError (Option Held)} (hf : Finds q u found) :
    ⟨.spareLock key wait, a⟩ ∉ u := by
  have hvain : ∀ {l : History}, (∀ e ∈ l, Vain e) → ⟨.spareLock key wait, a⟩ ∉ l :=
    fun hl hm => (hl _ hm).ne_spareLock rfl
  cases hf with
  | taken hu hv hq hc =>
    simp only [List.mem_append, List.mem_cons, not_or]
    exact ⟨hvain hu, nofun, hvain hv.vain⟩
  | failed hu => exact hvain hu

theorem published_announcement :
    published (announcement p q found) = match found with
      | .ok (id, c) =>
        if p.hasPublisher then [.occupied id c.restaurant c.table q.user q.slot.key] else []
      | .error _ => [] := by
  rcases found with e | ⟨id, c⟩
  · rfl
  · unfold announcement
    dsimp only
    split <;> rfl

theorem announcement_not_create : ∀ e ∈ announcement p q found, e.call.isCreate = false := by
  rcases found with e | ⟨id, c⟩
  · exact List.forall_mem_nil _
  · unfold announcement
    dsimp only
    split
    · simp [Call.isCreate]
    · exact List.forall_mem_nil _

theorem announcement_ne_spareLock {key : SlotKey} {wait : Duration}
    {a : Except GuardError (Option Held)} : ⟨.spareLock key wait, a⟩ ∉ announcement p q found := by
  rcases found with e | ⟨id, c⟩
  · exact List.not_mem_nil
  · unfold announcement
    dsimp only
    split
    · simp
    · exact List.not_mem_nil

/-- Under either lock: `w` leads to the grant, `u` is what is done under the lock and after it. -/
theorem Finds.reported {degraded : Bool} (hw : persisted w = [] ∧ published w = [])
    (hd : ∀ x, found = .ok x →
      (degraded = true ↔ ∃ key wait held, ⟨.spareLock key wait, .ok (some held)⟩ ∈ w))
    (hf : Finds q u found) (hv : Quiet v) :
    Reported p q (w ++ u ++ announcement p q found ++ v) (found.map (reservation q degraded)) := by
  have hpers : persisted (w ++ u ++ announcement p q found ++ v) = persisted u := by
    simp only [persisted_append, hw.1, persisted_announcement, persisted_vain hv.vain,
      List.nil_append, List.append_nil]
  have hpub : published (w ++ u ++ announcement p q found ++ v) =
      published (announcement p q found) := by
    simp only [published_append, hw.2, hf.published_eq_nil, published_vain hv.vain, List.nil_append,
      List.append_nil]
  have hspare : ∀ key wait a, ⟨.spareLock key wait, a⟩ ∈ w ++ u ++ announcement p q found ++ v ↔
      ⟨.spareLock key wait, a⟩ ∈ w := by
    intro key wait a
    have hv : ⟨.spareLock key wait, a⟩ ∉ v := fun hm => (hv.vain _ hm).ne_spareLock rfl
    simp only [List.mem_append, hf.ne_spareLock, announcement_ne_spareLock, hv, or_false]
  constructor
  · rw [hpers, Ne, hf.persisted_eq_nil]
    rcases found with e | x
    · refine ⟨?_, fun h => absurd ⟨e, rfl⟩ h⟩
      rintro ⟨_, ⟨⟩⟩
    · refine ⟨fun _ => ?_, fun _ => ⟨_, rfl⟩⟩
      rintro ⟨_, ⟨⟩⟩
  · rintro res hr
    cases hf with
    | failed hu => cases hr
    | @taken u₁ u₂ c cs now id hu₁ hu₂ hq hc =>
      cases hr
      refine ⟨w ++ u₁, c, now, u₂ ++ announcement p q (.ok (id, c)) ++ v, ?_, ?_, ?_, ?_, rfl, rfl,
        rfl, ?_, ?_⟩
      · simp only [List.append_assoc, List.cons_append, reservation]
      · rw [persisted_append, hw.1, persisted_vain hu₁]
        rfl
      · exact List.forall_mem_append.2 ⟨List.forall_mem_append.2
          ⟨hu₂.not_create, announcement_not_create⟩, hv.not_create⟩
      · exact ⟨cs, List.mem_append_right _ hq, hc⟩
      · simp only [hspare]
        exact hd _ rfl
      · rw [hpub, published_announcement]
        rfl
  · intro e hr
    rcases found with e | x
    · rw [hpub]
      rfl
    · cases hr

theorem Tells.reported (ht : Tells p q t r) : Reported p q t r := by
  cases ht with
  | @fair u v found hf hv =>
    rw [← List.nil_append u]
    exact hf.reported ⟨rfl, rfl⟩ (by simp) hv
  | @spare w u v a found hw ha hf hv =>
    have hpre : persisted (w ++ [⟨.spareLock q.slot.key p.settings.spareLockWait, a⟩]) = [] ∧
        published (w ++ [⟨.spareLock q.slot.key p.settings.spareLockWait, a⟩]) = [] := by
      rw [persisted_append, published_append, persisted_vain hw.vain, published_vain hw.vain]
      exact ⟨rfl, rfl⟩
    rw [List.append_cons]
    refine hf.reported hpre (fun x hx => ?_) hv
    obtain ⟨held, rfl⟩ := ha x hx
    exact ⟨fun _ => ⟨_, _, held, List.mem_append_right _ (List.mem_singleton_self _)⟩, fun _ => rfl⟩

theorem reserve_reported {o : List Release}
    (hl : Strand.Leads Release.program ⟨p.reserve q, []⟩ t ⟨.done r, o⟩) : Reported p q t r :=
  (reserve_yields.of_leads hl rfl).reported

namespace Reported

/-- One entry for a reservation that was made, and none for another one. -/
theorem persisted_length (h : Reported p q t r) :
    (persisted t).length = if r.isOk then 1 else 0 := by
  rcases r with e | res
  · have hn : ¬ persisted t ≠ [] := fun hp => nomatch (h.iff.2 hp).choose_spec
    rw [not_not.1 hn]
    rfl
  · obtain ⟨u, c, now, v, rfl, hu, hv, -⟩ := h.told res rfl
    have hv : persisted v = [] := by
      refine List.filterMap_eq_nil_iff.2 fun ⟨c, a⟩ he => ?_
      have hc : c.isCreate = false := hv _ he
      cases c with
      | create => cases hc
      | _ => rfl
    rw [List.append_cons, persisted_append, persisted_append, hu, hv]
    rfl

theorem published_length (h : Reported p q t r) (hp : p.hasPublisher = true) :
    (published t).length = if r.isOk then 1 else 0 := by
  rcases r with e | res
  · rw [h.silent e rfl]
    rfl
  · obtain ⟨u, c, now, v, -, -, -, -, -, -, -, -, hpub⟩ := h.told res rfl
    rw [hpub, if_pos hp]
    rfl

end Reported

end

/-! ## Reservations side by side -/

section

variable {O : Office} {σ : O.State} {w w' : Crowd O} {β : Type}

namespace Crowd

/-- What the reservation `i` returned, if it has. -/
def outcome? (w : Crowd O) (i : Nat) : Option (Except AdmissionError Reservation) :=
  w.threads[i]?.bind Thread.outcome?

/-- The calls of the reservations that have returned. -/
def settled (w : Crowd O) : History := (w.log.filter fun e => (w.outcome? e.1).isSome).map (·.2)

/-- How many reservations were made. -/
def made (w : Crowd O) : Nat :=
  {i ∈ Finset.range w.threads.length | (w.outcome? i).any (·.isOk)}.card

/-- Each reservation that has returned reported what it persisted, and of them together as many
were made as entries were accepted and events were told. -/
structure Faithful (w : Crowd O) : Prop where
  reported : ∀ (i : Nat) p q s v b r, w.threads[i]? = some ⟨.reserve p q, s, v, b⟩ →
    s.result? = some r → Reported p q (own i w.log) r
  entries : (persisted w.settled).length = w.made
  events : (∀ p q, O.Opens p q → p.hasPublisher = true) →
    (published w.settled).length = w.made

/-- Counted thread by thread. -/
theorem length_filterMap_settled {g : Nat → Bool} {f : Asked collaborators → Option β} {n : Nat}
    {log : List (Nat × Asked collaborators)} (hlog : ∀ e ∈ log, e.1 < n) :
    (((log.filter fun e => g e.1).map (·.2)).filterMap f).length =
      ∑ i ∈ Finset.range n, if g i then ((own i log).filterMap f).length else 0 := by
  induction log using List.reverseRecOn with
  | nil => simp
  | append_singleton log e ih =>
    obtain ⟨j, e⟩ := e
    rw [List.forall_mem_append] at hlog
    have hj : j ∈ Finset.range n := Finset.mem_range.2 (hlog.2 _ (List.mem_singleton_self _))
    have hterm : ∀ i, (if g i then ((own i (log ++ [(j, e)])).filterMap f).length else 0) =
        (if g i then ((own i log).filterMap f).length else 0) +
          if i = j then (if g j then ([e].filterMap f).length else 0) else 0 := by
      intro i
      by_cases hi : i = j
      · subst hi
        rw [own_snoc_self, List.filterMap_append, List.length_append, if_pos rfl]
        split <;> rfl
      · rw [own_snoc_of_ne (Ne.symm hi), if_neg hi, Nat.add_zero]
    rw [Finset.sum_congr rfl fun i _ => hterm i, Finset.sum_add_distrib, ← ih hlog.1,
      Finset.sum_ite_eq' _ j, if_pos hj, List.filter_append, List.map_append, List.filterMap_append,
      List.length_append]
    congr 1
    by_cases hg : g j = true
    · simp [hg]
    · simp [hg]

theorem Reach.reported {i : Nat} {p : Policy} {q : Request} {v : Option O.Pending} {b : Bool}
    {s : Strand collaborators Release (Except AdmissionError Reservation)}
    {r : Except AdmissionError Reservation} (h : Reach σ w)
    (hi : w.threads[i]? = some ⟨.reserve p q, s, v, b⟩) (hr : s.result? = some r) :
    Reported p q (own i w.log) r :=
  (reserve_yields.of_leads (h.led.leads i _ hi) hr).reported

/-- What is noted once for each reservation that was made, and for no other one. -/
theorem Reach.length_settled {f : Asked collaborators → Option β} (h : Reach σ w)
    (hf : ∀ p q t r, O.Opens p q → Reported p q t r →
      (t.filterMap f).length = if r.isOk then 1 else 0) :
    (w.settled.filterMap f).length = w.made := by
  have hsum := length_filterMap_settled (g := fun i => (w.outcome? i).isSome) (f := f) h.led.bound
  rw [settled, hsum, made, Finset.card_filter]
  refine Finset.sum_congr rfl fun i _ => ?_
  cases ho : w.outcome? i with
  | none => rfl
  | some r =>
    obtain ⟨⟨_ | _, s, v, b⟩, hi, hr⟩ := Option.bind_eq_some_iff.1 ho
    · rename_i p q
      have hopen : O.Opens p q := h.opened _ (List.mem_of_getElem? hi) p q rfl
      exact hf p q _ r hopen (h.reported hi hr)
    · cases hr

end Crowd

end

/-- Every reservation that is not dropped returns, and reports what it persisted; and so do all
reservations of a crowd. -/
theorem reserve_faithful :
    (∀ (p : Policy) (q : Request) (F : Behaviour collaborators),
      ∃ t r, Strand.Ends Release.program F [] ⟨p.reserve q, []⟩ t r [] ∧ Reported p q t r) ∧
    ∀ (O : Office) (σ : O.State) (w : Crowd O), Crowd.Reach σ w → w.Faithful := by
  refine ⟨fun p q F => ?_, fun O σ w h => ⟨?_, ?_, ?_⟩⟩
  · obtain ⟨t, r, o, he, rfl, -⟩ := reserve_follows.ends F []
    exact ⟨t, r, he, reserve_reported he.leads⟩
  · exact fun i p q s v b r hi hr => h.reported hi hr
  · exact h.length_settled fun p q t r _ ht => ht.persisted_length
  · exact fun hO => h.length_settled fun p q t r ho ht => ht.published_length (hO p q ho)

/-! ## A reservation that is told -/

namespace Sample

def tellingPolicy : Policy := { policy with hasPublisher := true }

/-- Everybody answers well and at once. -/
abbrev office : Office where
  State := Unit
  Pending := Unit
  Looks _ c _ _ look := look = .answered (answer c)
  Drops _ _ _ := True
  Stirs _ _ := True
  Opens p _ := p.hasPublisher = true

/-- Two reservations, one after the other. -/
def pair : Crowd office :=
  (List.replicate 24 0 ++ List.replicate 24 1).foldl
    (Crowd.turn fun σ c _ => some (σ, .answered (answer c)))
    ⟨(), [.start (.reserve tellingPolicy request), .start (.reserve tellingPolicy request)], []⟩

theorem reach_pair : Crowd.Reach (O := office) () pair := by
  have h₁ := Crowd.Reach.start (O := office) (σ := ())
  have h₂ := h₁.step (.arrive _ tellingPolicy request rfl)
  have h₃ := h₂.step (.arrive _ tellingPolicy request rfl)
  refine h₃.turns (fun σ c v σ' l hl => ?_) _
  cases hl
  rfl

end Sample

theorem sample_faithful :
    Sample.pair.made = 2 ∧ (∀ p q, Sample.office.Opens p q → p.hasPublisher = true) ∧
      Sample.pair.Faithful :=
  ⟨by decide +kernel, fun _ _ h => h, reserve_faithful.2 Sample.office () _ Sample.reach_pair⟩

end Turnstile.Admission
