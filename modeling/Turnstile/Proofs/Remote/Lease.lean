import Turnstile.Proofs.Remote.Aside

/-!
# The stages of a section

Work under a fair lock of the coordination server, as the task that does it sees it: from the tries
for the lock, over the work, to the release. Whatever the server and all others answer, each
operation on locks is made at its stage and for the owner of the section. What was granted and
freed can be read off the answers (`Recorded`).
-/

namespace Turnstile.Sim

open Remote (Name)

def made? : Asked operations → Option Ulid
  | ⟨.deed .newOwner, (u : Ulid)⟩ => some u
  | _ => none

/-- The lock that an answer grants, and to whom. -/
def grant? : Asked operations → Option (Name × Ulid)
  | ⟨.wait (.exchange (.run .acquire (lock :: _) (.owner u :: _))), (r : Remote.Reply)⟩ =>
    if r.int64 = .ok 1 then some (lock, u) else none
  | _ => none

/-- The lock that is free, or somebody else's, by an answer to its release, and who released it. -/
def free? : Asked operations → Option (Name × Ulid)
  | ⟨.wait (.exchange (.run .release (lock :: _) (.owner u :: _))), (r : Remote.Reply)⟩ =>
    if r.int64.isOk then some (lock, u) else none
  | _ => none

inductive Stage
  | outside
  | asking (owner : Ulid)
  /-- The lock is granted, and its watchdog is about to start. -/
  | granted (owner : Ulid)
  | kept (owner : Ulid)
  /-- The release was answered, and the watchdog is about to stop. -/
  | freed (owner : Ulid)
  | closed (owner : Ulid)
deriving DecidableEq

namespace Stage

def next (φ : Stage) (e : Asked operations) : Stage :=
  match φ, e with
  | outside, ⟨.deed .newOwner, (u : Ulid)⟩ => asking u
  | asking u, e => if (grant? e).isSome then granted u else asking u
  | granted u, ⟨.deed (.watch _ _ _ _), _⟩ => kept u
  | kept u, e => if (free? e).isSome then freed u else kept u
  | freed u, ⟨.deed (.unwatch _ _ _), _⟩ => closed u
  | φ, _ => φ

/-- A stage at which the section may wait for something. -/
def IsOpen : Stage → Prop
  | asking _ => True
  | kept _ => True
  | closed _ => True
  | _ => False

def owner? : Stage → Option Ulid
  | outside => none
  | asking u => some u
  | granted u => some u
  | kept u => some u
  | freed u => some u
  | closed u => some u

def granted? : Stage → Option Ulid
  | outside => none
  | asking _ => none
  | φ => φ.owner?

def freed? : Stage → Option Ulid
  | freed u => some u
  | closed u => some u
  | _ => none

/-- The owner whose lease is kept alive. -/
def watched? : Stage → Option Ulid
  | kept u => some u
  | freed u => some u
  | _ => none

end Stage

/-- The operations of a section on the lock of `key` at client `n`, each at its stage. -/
inductive Allowed (n : Nat) (key : String) : Stage → Op → Prop
  | owner : Allowed n key .outside (.deed .newOwner)
  | acquire (u : Ulid) (args : List Remote.Argument) :
    Allowed n key (.asking u)
      (.wait (.exchange (.run .acquire (Remote.Lock.keys key) (.owner u :: args))))
  | watch (u : Ulid) (lease : Duration) :
    Allowed n key (.granted u) (.deed (.watch n (.lock key) u lease))
  | release (u : Ulid) :
    Allowed n key (.kept u) (.wait (.exchange (.run .release [.lock key] [.owner u])))
  | unwatch (u : Ulid) : Allowed n key (.freed u) (.deed (.unwatch n (.lock key) u))
  | aside {φ : Stage} {op : Op} : φ.IsOpen → op.IsAside → Allowed n key φ op

/-- A lock is owed only while it is kept, and is to be released where it was taken. -/
def Owes (n : Nat) (key : String) (φ : Stage) (owed : List Pledge) : Prop :=
  ∀ r ∈ owed, r.IsAside ∨ ∃ (w : Wiring) (key' : SlotKey) (u : Ulid),
    r = .release w (.lock key' u) ∧ w.lock = .remote n ∧ key'.text = key ∧ φ = .kept u

/-- The logic of a section: its stage goes along the answers, and every operation is allowed. -/
abbrev Keeps {α : Type} (n : Nat) (key : String) (Q : α → Stage → List Pledge → Prop) :
    Stage → Strand operations Pledge α → Prop :=
  Strand.Always Pledge.code Stage.next
    (fun φ owed op => Allowed n key φ op ∧ Owes n key φ owed) Q

/-- A task that does `work` under the lock of `key`. -/
def sectionCode {α : Type} (w : Wiring) (key : SlotKey) (wait : Duration)
    (work : Admission.Routine (Except AdmissionError α)) : Code Ending :=
  (w.run (Admission.underLock key wait work)).bind fun _ => .done (.finished .null)

variable {α β : Type} {n : Nat} {key : String} {φ : Stage} {u : Ulid}

/-! ### What an answer tells -/

theorem grant?_of_isAside {op : Op} (h : op.IsAside) (a : operations.Answer op) :
    grant? ⟨op, a⟩ = none := by
  unfold grant?
  split
  · rename_i he
    cases he
    cases h
  · rfl

theorem free?_of_isAside {op : Op} (h : op.IsAside) (a : operations.Answer op) :
    free? ⟨op, a⟩ = none := by
  unfold free?
  split
  · rename_i he
    cases he
    cases h
  · rfl

theorem made?_of_isAside {op : Op} (h : op.IsAside) (a : operations.Answer op) :
    made? ⟨op, a⟩ = none := by
  unfold made?
  split
  · rename_i he
    cases he
    cases h
  · rfl

theorem int64_of_isUnknownScript {r : Remote.Reply} (h : r.isUnknownScript = true) :
    ∃ e, r.int64 = .error e := by
  cases r with
  | error s => exact ⟨_, rfl⟩
  | _ => cases h

namespace Stage

theorem next_of_grant {e : Asked operations} {p : Name × Ulid} (h : grant? e = some p) :
    (asking u).next e = granted u := by
  simp [next, h]

theorem next_of_no_grant {e : Asked operations} (h : grant? e = none) :
    (asking u).next e = asking u := by
  simp [next, h]

theorem next_of_free {e : Asked operations} {p : Name × Ulid} (h : free? e = some p) :
    (kept u).next e = freed u := by
  simp [next, h]

theorem next_of_not_free {e : Asked operations} (h : free? e = none) :
    (kept u).next e = kept u := by
  simp [next, h]

theorem next_of_isAside {op : Op} (hφ : φ.IsOpen) (h : op.IsAside)
    (a : operations.Answer op) : φ.next ⟨op, a⟩ = φ := by
  cases φ with
  | asking u => exact next_of_no_grant (grant?_of_isAside h a)
  | kept u => exact next_of_not_free (free?_of_isAside h a)
  | closed u => rfl
  | _ => cases hφ

end Stage

/-- What was made up, granted and freed in a trace is what the stage at its end says. -/
structure Recorded (key : String) (φ : Stage) (t : List (Asked operations)) : Prop where
  made : ∀ u, (∃ e ∈ t, made? e = some u) ↔ φ.owner? = some u
  granted : ∀ p, (∃ e ∈ t, grant? e = some p) ↔ φ.granted?.map (Prod.mk (Name.lock key)) = some p
  freed : ∀ p, (∃ e ∈ t, free? e = some p) ↔ φ.freed?.map (Prod.mk (Name.lock key)) = some p

namespace Recorded

theorem nil : Recorded key .outside [] := by
  constructor <;> simp [Stage.owner?, Stage.granted?, Stage.freed?]

/-- One answer more, of which it is known what it tells. -/
theorem snoc {t : List (Asked operations)} {e : Asked operations} (h : Recorded key φ t)
    (φ' : Stage) (m : Option Ulid) (g f : Option (Name × Ulid)) (hn : φ.next e = φ')
    (hm : made? e = m) (hg : grant? e = g) (hf : free? e = f)
    (hm' : ∀ u, φ'.owner? = some u ↔ φ.owner? = some u ∨ m = some u)
    (hg' : ∀ p, φ'.granted?.map (Prod.mk (Name.lock key)) = some p ↔
      φ.granted?.map (Prod.mk (Name.lock key)) = some p ∨ g = some p)
    (hf' : ∀ p, φ'.freed?.map (Prod.mk (Name.lock key)) = some p ↔
      φ.freed?.map (Prod.mk (Name.lock key)) = some p ∨ f = some p) :
    Recorded key (φ.next e) (t ++ [e]) := by
  subst hn hm hg hf
  refine ⟨fun u => ?_, fun p => ?_, fun p => ?_⟩
  · rw [hm', ← h.made]
    simp [or_and_right, exists_or]
  · rw [hg', ← h.granted]
    simp [or_and_right, exists_or]
  · rw [hf', ← h.freed]
    simp [or_and_right, exists_or]

theorem next {t : List (Asked operations)} {op : Op} (h : Recorded key φ t)
    (hok : Allowed n key φ op) (a : operations.Answer op) :
    Recorded key (φ.next ⟨op, a⟩) (t ++ [⟨op, a⟩]) := by
  cases hok with
  | owner =>
    refine h.snoc (.asking a) (some a) none none rfl rfl rfl rfl ?_ ?_ ?_
    all_goals simp [Stage.owner?, Stage.granted?, Stage.freed?]
  | acquire u args =>
    by_cases hr : Remote.Reply.int64 a = .ok 1
    · refine h.snoc (.granted u) none (some (.lock key, u)) none (Stage.next_of_grant (if_pos hr))
        rfl (if_pos hr) rfl ?_ ?_ ?_
      all_goals simp [Stage.owner?, Stage.granted?, Stage.freed?]
    · refine h.snoc (.asking u) none none none (Stage.next_of_no_grant (if_neg hr)) rfl
        (if_neg hr) rfl ?_ ?_ ?_
      all_goals simp [Stage.owner?, Stage.granted?, Stage.freed?]
  | watch u lease =>
    refine h.snoc (.kept u) none none none rfl rfl rfl rfl ?_ ?_ ?_
    all_goals simp [Stage.owner?, Stage.granted?, Stage.freed?]
  | release u =>
    by_cases hr : (Remote.Reply.int64 a).isOk = true
    · refine h.snoc (.freed u) none none (some (.lock key, u)) (Stage.next_of_free (if_pos hr)) rfl
        rfl (if_pos hr) ?_ ?_ ?_
      all_goals simp [Stage.owner?, Stage.granted?, Stage.freed?]
    · refine h.snoc (.kept u) none none none (Stage.next_of_not_free (if_neg hr)) rfl rfl
        (if_neg hr) ?_ ?_ ?_
      all_goals simp [Stage.owner?, Stage.granted?, Stage.freed?]
  | unwatch u =>
    refine h.snoc (.closed u) none none none rfl rfl rfl rfl ?_ ?_ ?_
    all_goals simp [Stage.owner?, Stage.granted?, Stage.freed?]
  | aside hφ ha =>
    refine h.snoc φ none none none (Stage.next_of_isAside hφ ha a) (made?_of_isAside ha a)
      (grant?_of_isAside ha a) (free?_of_isAside ha a) ?_ ?_ ?_
    all_goals simp

end Recorded

/-! ### What a section does -/

def Clear (owed : List Pledge) : Prop := ∀ r ∈ owed, r.IsAside

theorem clear_nil : Clear [] := by simp [Clear]

theorem Clear.owes {owed : List Pledge} (h : Clear owed) : Owes n key φ owed :=
  fun r hr => .inl (h r hr)

theorem Owes.cons {owed : List Pledge} {r : Pledge} (h : Owes n key φ owed) (hr : r.IsAside) :
    Owes n key φ (r :: owed) :=
  List.forall_mem_cons.2 ⟨.inl hr, h⟩

/-- At an open stage everything beside the locks is allowed and changes nothing. -/
theorem ignores (hφ : φ.IsOpen) :
    Ignores Stage.next (fun φ owed op => Allowed n key φ op ∧ Owes n key φ owed)
      (Owes n key φ) φ where
  ok _ ha _ ho := ⟨.aside hφ ha, ho⟩
  next _ ha := Stage.next_of_isAside hφ ha
  owe _ hr _ ho := ho.cons hr

namespace Keeps

variable {Q : α → Stage → List Pledge → Prop} {owed : List Pledge}

/-- What leaves the locks alone comes first. -/
theorem after {p : Code α} {k : α → Code β} {Q : β → Stage → List Pledge → Prop}
    (ho : Owes n key φ owed)
    (h : Strand.Stays Pledge.code Stage.next
      (fun φ owed op => Allowed n key φ op ∧ Owes n key φ owed) (Owes n key φ) φ p)
    (hk : ∀ a, Keeps n key Q φ ⟨k a, owed⟩) : Keeps n key Q φ ⟨p.bind k, owed⟩ := by
  refine (h owed ho).bind fun a φ' o ⟨hφ, ho'⟩ => ?_
  subst hφ ho'
  exact hk a

theorem aside {op : Op} {k : operations.Answer op → Code α} (ho : Owes n key φ owed)
    (hφ : φ.IsOpen) (ha : op.IsAside) (hk : ∀ a, Keeps n key Q φ ⟨k a, owed⟩) :
    Keeps n key Q φ ⟨.call (I := operations) op k, owed⟩ := by
  refine .call ⟨.aside hφ ha, ho⟩ fun a => ?_
  rw [Stage.next_of_isAside hφ ha]
  exact hk a

end Keeps

theorem take_cases (lease : Duration) (key : String) (u : Ulid) (wait : Duration) :
    (∃ e, Remote.Lock.take lease key u wait = .done (.error e)) ∨
      ∃ fuel, Remote.Lock.take lease key u wait =
        .call .clock fun (now : Nat) => Remote.Lock.poll lease key u (now + wait.nanos) fuel := by
  unfold Remote.Lock.take
  cases Limits.checkKey key with
  | error e => exact .inl ⟨e, rfl⟩
  | ok _ =>
    cases Limits.checkWait wait with
    | error e => exact .inl ⟨e, rfl⟩
    | ok _ => exact .inr ⟨_, rfl⟩

/-- After the tries either the lock is kept, or it is still asked for. -/
def Tried (u : Ulid) (a : Except GuardError Bool) (φ : Stage) : Prop :=
  if a = .ok true then φ = .kept u else φ = .asking u

theorem tried_error (e : GuardError) : Tried u (.error e) (.asking u) := by simp [Tried]

theorem tried_true : Tried u (.ok true) (.kept u) := by simp [Tried]

theorem tried_false : Tried u (.ok false) (.asking u) := by simp [Tried]

/-- After the release the watchdog has stopped, or it goes on. -/
def Settled (u : Ulid) (φ : Stage) : Prop := φ = .kept u ∨ φ = .closed u

theorem Settled.isOpen (h : Settled u φ) : φ.IsOpen := by
  rcases h with rfl | rfl
  · trivial
  · trivial

section

variable {owed : List Pledge} (hc : Clear owed)
include hc

theorem acquire_keeps (args : List Remote.Argument) :
    Keeps n key
      (fun a φ' o => (if a = .ok 1 then φ' = .granted u else φ' = .asking u) ∧ o = owed) (.asking u)
      ⟨Code.remote n (Remote.run .acquire (Remote.Lock.keys key) (.owner u :: args)
        Remote.Reply.int64), owed⟩ := by
  refine run_always
    (R := fun a (φ' : Stage) => if a = .ok 1 then φ' = .granted u else φ' = .asking u)
    ⟨Allowed.acquire u args, hc.owes⟩ ⟨Allowed.aside trivial trivial, hc.owes⟩ (fun r => rfl)
    (fun r => ?_) (fun r hr => ?_) fun e => ?_
  · by_cases hr : r.int64 = .ok 1
    · rw [if_pos hr]
      exact Stage.next_of_grant (if_pos hr)
    · rw [if_neg hr]
      exact Stage.next_of_no_grant (if_neg hr)
  · obtain ⟨e, he⟩ := int64_of_isUnknownScript hr
    refine Stage.next_of_no_grant (if_neg ?_)
    rw [he]
    nofun
  · rw [if_neg nofun]

theorem giveUp_keeps :
    Keeps n key (fun a φ' o => Tried u a φ' ∧ o = owed) (.asking u)
      ⟨Code.remote n (Remote.Lock.giveUp key u), owed⟩ := by
  have hφ : (Stage.asking u).IsOpen := trivial
  rw [Remote.Lock.giveUp, Code.remote_bind]
  refine Keeps.after hc.owes ((ignores hφ).remote (Remote.run_isAside ?_)) fun _ => ?_
  · trivial
  · exact .done ⟨tried_false, rfl⟩

theorem poll_keeps (lease : Duration) (deadline fuel : Nat) :
    Keeps n key (fun a φ' o => Tried u a φ' ∧ o = owed) (.asking u)
      ⟨Code.remote n (Remote.Lock.poll lease key u deadline fuel), owed⟩ := by
  have hφ : (Stage.asking u).IsOpen := trivial
  induction fuel with
  | zero => exact giveUp_keeps hc
  | succ fuel ih =>
    rw [Remote.Lock.poll, Code.remote_bind]
    refine (acquire_keeps hc _).bind fun a φ' o ⟨ha, ho⟩ => ?_
    subst ho
    cases a with
    | error e =>
      rw [if_neg nofun] at ha
      subst ha
      exact .done ⟨tried_error e, rfl⟩
    | ok granted =>
      by_cases hg : granted = 1
      · rw [if_pos (congrArg _ hg)] at ha
        subst ha hg
        exact .call ⟨.watch u lease, hc.owes⟩ fun _ => .done ⟨tried_true, rfl⟩
      · rw [if_neg fun h => hg (Except.ok.inj h)] at ha
        subst ha
        show Keeps n key _ _ ⟨Code.remote n (if granted = 1 then _ else _), o⟩
        rw [if_neg hg]
        refine Keeps.aside hc.owes hφ trivial fun (now : Nat) => ?_
        show Keeps n key _ _ ⟨Code.remote n (if deadline ≤ now then _ else _), o⟩
        split
        · exact giveUp_keeps hc
        · exact Keeps.aside hc.owes hφ trivial fun _ => ih

/-- A lock is taken with its watchdog, or not at all. -/
theorem take_keeps (lease wait : Duration) :
    Keeps n key (fun a φ' o => Tried u a φ' ∧ o = owed) (.asking u)
      ⟨Code.remote n (Remote.Lock.take lease key u wait), owed⟩ := by
  have hφ : (Stage.asking u).IsOpen := trivial
  rcases take_cases lease key u wait with ⟨e, he⟩ | ⟨fuel, hf⟩
  · rw [he]
    exact .done ⟨tried_error e, rfl⟩
  · rw [hf]
    exact Keeps.aside hc.owes hφ trivial fun (now : Nat) => poll_keeps hc lease _ fuel

theorem isHeldBy_keeps (hφ : φ.IsOpen) (u : Ulid) :
    Keeps n key (fun _ φ' o => φ' = φ ∧ o = owed) φ
      ⟨Code.remote n (Remote.Lock.isHeldBy key u), owed⟩ :=
  Keeps.aside hc.owes hφ trivial fun _ => .done ⟨rfl, rfl⟩

theorem release_keeps :
    Keeps n key
      (fun a φ' o => (if a.isOk then φ' = .freed u else φ' = .kept u) ∧ o = owed) (.kept u)
      ⟨Code.remote n (Remote.run .release [.lock key] [.owner u] Remote.Reply.int64), owed⟩ := by
  refine run_always (R := fun a (φ' : Stage) => if a.isOk then φ' = .freed u else φ' = .kept u)
    ⟨Allowed.release u, hc.owes⟩ ⟨Allowed.aside trivial trivial, hc.owes⟩ (fun r => rfl)
    (fun r => ?_) (fun r hr => ?_) fun e => ?_
  · by_cases hr : r.int64.isOk = true
    · rw [if_pos hr]
      exact Stage.next_of_free (if_pos hr)
    · rw [if_neg hr]
      exact Stage.next_of_not_free (if_neg hr)
  · -- a script that the server has forgotten is sent and run again, still before the release
    obtain ⟨e, he⟩ := int64_of_isUnknownScript hr
    refine Stage.next_of_not_free (if_neg ?_)
    rw [he]
    nofun
  · rw [if_neg nofun]

/-- The watchdog stops once the release is answered with a number, and no sooner. -/
theorem unlock_keeps :
    Keeps n key (fun _ φ' o => Settled u φ' ∧ o = owed) (.kept u)
      ⟨Code.remote n (Remote.Lock.unlock key u), owed⟩ := by
  rw [Remote.Lock.unlock, Code.remote_bind]
  refine (release_keeps hc).bind fun a φ' o ⟨ha, ho⟩ => ?_
  subst ho
  cases a with
  | error e =>
    rw [if_neg nofun] at ha
    subst ha
    exact .done ⟨.inl rfl, rfl⟩
  | ok removed =>
    replace ha : φ' = .freed u := by simpa [Except.isOk, Except.toBool] using ha
    subst ha
    exact .call ⟨.unwatch u, hc.owes⟩ fun _ => .done ⟨.inr rfl, rfl⟩

end

section

variable {owed : List Pledge} {w : Wiring} {key : SlotKey} (hw : w.lock = .remote n)
  (hc : Clear owed)
include hw hc

/-- A release that finds the lock lost, or fails, leaves the watchdog alone. -/
theorem settle_keeps :
    Keeps n key.text (fun _ φ' o => Settled u φ' ∧ o = owed) (.kept u)
      ⟨Pledge.code (.release w (.lock key u)), owed⟩ := by
  have hφ : (Stage.kept u).IsOpen := trivial
  have hheld : w.serve (.isHeldBy key u) = Code.remote n (Remote.Lock.isHeldBy key.text u) := by
    show w.lock.isHeldBy key.text u = _
    rw [hw]
    rfl
  have hunlock : w.serve (.unlock key u) = Code.remote n (Remote.Lock.unlock key.text u) := by
    show w.lock.unlock key.text u = _
    rw [hw]
    rfl
  have hnote {φ' : Stage} (hφ' : Settled u φ') (r : Except GuardError Bool) :
      Keeps n key.text (fun _ φ' o => Settled u φ' ∧ o = owed) φ'
        ⟨w.run (Admission.Release.noteFailure .lock r), owed⟩ := by
    refine ((ignores hφ'.isOpen).run w (Admission.noteFailure_tame .lock r) owed hc.owes).mono
      fun _ φ'' o ⟨hφ'', ho⟩ => ⟨?_, ho⟩
    subst hφ''
    exact hφ'
  show Keeps n key.text _ _ ⟨(w.serve (.isHeldBy key u)).bind _, owed⟩
  rw [hheld]
  refine (isHeldBy_keeps hc hφ u).bind fun a φ' o ⟨hφ', ho⟩ => ?_
  subst hφ' ho
  match a with
  | .ok true =>
    show Keeps n key.text _ _ ⟨(w.serve (.unlock key u)).bind _, o⟩
    rw [hunlock]
    refine (unlock_keeps hc).bind fun a φ' o ⟨hφ', ho⟩ => ?_
    subst ho
    exact hnote hφ' a
  | .ok false => exact .done ⟨.inl rfl, rfl⟩
  | .error e => exact hnote (.inl rfl) (.error e)

theorem owing_keeps {work : Admission.Routine α} (hwork : Admission.IsAside work) :
    Keeps n key.text (fun _ φ' _ => φ'.IsOpen) (.kept u)
      ⟨w.run (work.owing (.lock key u)), owed⟩ := by
  have hφ : (Stage.kept u).IsOpen := trivial
  rw [Wiring.run, Program.lower_owing]
  refine Strand.Always.owing (R := fun _ φ' => φ' = .kept u)
    ((ignores hφ).run w hwork (.release w (.lock key u) :: owed) ?_) fun _ φ' hφ' => ?_
  · exact List.forall_mem_cons.2 ⟨.inr ⟨w, key, u, rfl, hw, rfl, rfl⟩, hc.owes⟩
  subst hφ'
  exact (settle_keeps hw hc).mono fun _ φ' _ h => h.1.isOpen

/-- From its beginning to its end a section does what is allowed. -/
theorem underLock_keeps (wait : Duration) {work : Admission.Routine (Except AdmissionError α)}
    (hwork : Admission.IsAside work) :
    Keeps n key.text (fun _ φ' _ => φ'.IsOpen) .outside
      ⟨w.run (Admission.underLock key wait work), owed⟩ := by
  have hlock (u : Ulid) :
      w.serve (.lock key u wait) = Code.remote n (Remote.Lock.take w.lease key.text u wait) := by
    show w.lock.lock w.lease key.text u wait = _
    rw [hw]
    rfl
  refine .call ⟨.owner, hc.owes⟩ fun (u : Ulid) => ?_
  show Keeps n key.text _ (.asking u) ⟨(w.serve (.lock key u wait)).bind _, owed⟩
  rw [hlock]
  refine (take_keeps hc w.lease wait).bind fun a φ o ⟨ha, ho⟩ => ?_
  subst ho
  match a with
  | .ok true =>
    replace ha : φ = .kept u := by simpa [Tried] using ha
    subst ha
    have hφ : (Stage.kept u).IsOpen := trivial
    refine Keeps.aside hc.owes hφ trivial fun _ => ?_
    show Keeps n key.text _ _ ⟨w.run ((work.owing (.lock key u)).bind _), o⟩
    rw [Wiring.run, Program.lower_bind]
    exact (owing_keeps hw hc hwork).bind fun _ φ' o h => .done h
  | .ok false =>
    replace ha : φ = .asking u := by simpa [Tried] using ha
    subst ha
    have hφ : (Stage.asking u).IsOpen := trivial
    exact Keeps.aside hc.owes hφ trivial fun _ => .done hφ
  | .error e =>
    replace ha : φ = .asking u := by simpa [Tried] using ha
    subst ha
    have hφ : (Stage.asking u).IsOpen := trivial
    refine Keeps.aside hc.owes hφ trivial fun _ => ?_
    show Keeps n key.text _ _ ⟨w.run (if e.isUnavailable then _ else _), o⟩
    split
    · exact .done hφ
    · exact .done hφ

omit hc in
theorem section_keeps (wait : Duration) {work : Admission.Routine (Except AdmissionError α)}
    (hwork : Admission.IsAside work) :
    Keeps n key.text (fun _ φ' _ => φ'.IsOpen) .outside ⟨sectionCode w key wait work, []⟩ :=
  (underLock_keeps hw clear_nil wait hwork).bind fun _ _ _ h => .done h

end

/-! ### A section that is dropped -/

/-- The task that releases a lock which a dropped section still owes. -/
def dropCode (n : Nat) (w : Wiring) (key : SlotKey) (u : Ulid) : Strand operations Pledge Ending :=
  ⟨(w.run (Admission.Release.lock key u).program).bind fun _ => .settle (.done (.finished .null)),
    [.letGo n]⟩

/-- It is what the world starts when the lock is forfeited. -/
theorem forfeit_lock {w : Wiring} (hw : w.lock = .remote n) (key : SlotKey) (world : World) :
    world.forfeit (.release w (.lock key u)) =
      (world.use n, [.start none (dropCode n w key u).code (dropCode n w key u).owed]) := by
  have hn : w.lockClient? = some n := by
    rw [Wiring.lockClient?, hw]
  simp only [World.forfeit, hn]
  rfl

/-- What a dropped task leaves to do for its lock, given what it owed. -/
inductive Left (n : Nat) (owed : List Pledge) : Strand operations Pledge Ending → Prop
  | release (w : Wiring) (key : SlotKey) (u : Ulid) : .release w (.lock key u) ∈ owed →
    Left n owed (dropCode n w key u)
  | nothing : Clear owed → Left n owed ⟨.done (.finished .null), []⟩

theorem drop_keeps {w : Wiring} {key : SlotKey} (hw : w.lock = .remote n) :
    Keeps n key.text (fun _ φ' _ => φ'.IsOpen) (.kept u) (dropCode n w key u) := by
  have hc : Clear [.letGo n] := by simp [Clear, Pledge.IsAside]
  refine (settle_keeps hw hc).bind fun _ φ' o ⟨hφ', ho⟩ => ?_
  subst ho
  exact .settle (Keeps.aside clear_nil.owes hφ'.isOpen trivial fun _ => .done hφ'.isOpen)

/-- A section that is dropped goes on with what it leaves to do, at the stage where it was. -/
theorem Left.keeps {owed : List Pledge} {s : Strand operations Pledge Ending} (h : Left n owed s)
    (hφ : φ.IsOpen) (ho : Owes n key φ owed) : Keeps n key (fun _ φ' _ => φ'.IsOpen) φ s := by
  cases h with
  | release w key' u hm =>
    rcases ho _ hm with ha | ⟨_, _, _, he, hw, hkey, hφ⟩
    · cases ha
    · cases he
      subst hkey hφ
      exact drop_keeps hw
  | nothing hc => exact .done hφ

end Turnstile.Sim
