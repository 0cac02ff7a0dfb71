import Turnstile.Proofs.Remote.Lease
import Turnstile.Proofs.Runs

/-!
# How a lock is polled

A client that takes a fair lock runs one script until the lock is granted, until a reply cannot be
read, or until its time is over. `Lock.Course` is what it does, poll by poll, and `Lock.Protocol`
says how the course and the result hang together. Nothing is supposed of the replies. Of the clock
it is supposed that it does not go back and that a pause takes its time (`Timely`): then the polls
do not run out before the wait does, whatever else takes time (`Lock.take_protocol`).
-/

namespace Turnstile.Remote

open Strand (Ends Yields Answered answered_append)

/-! ## Time -/

/-- After the history `h` it is `time h`. A call may take any time, and a pause at least its own. -/
structure Timely (F : Behaviour client) (time : List (Asked client) → Nat) : Prop where
  clock (h : List (Asked client)) : F h Call.clock = time h
  later (h : List (Asked client)) (e : Asked client) : time h ≤ time (h ++ [e])
  pause (h : List (Asked client)) (d : Duration) : time h + d.nanos ≤ time (h ++ [⟨.pause d, ()⟩])

/-- Only pauses take time, and a pause ends when the alarm for its end goes off. -/
structure Timed (alarm : Nat → Nat) (F : Behaviour client) (time : List (Asked client) → Nat) :
    Prop where
  clock (h : List (Asked client)) : F h Call.clock = time h
  stays (h : List (Asked client)) (e : Asked client) :
    (∀ d, e.call ≠ Call.pause d) → time (h ++ [e]) = time h
  pause (h : List (Asked client)) (d : Duration) :
    time (h ++ [⟨.pause d, ()⟩]) = alarm (time h + d.nanos)

/-- Only pauses take time, and a pause ends at the first whole millisecond at which it is over. -/
abbrev Prompt (F : Behaviour client) (time : List (Asked client) → Nat) : Prop :=
  Timed Clock.tick F time

section

variable {F : Behaviour client} {time : List (Asked client) → Nat} {h t : List (Asked client)}

theorem Timely.le_append (hF : Timely F time) : time h ≤ time (h ++ t) := by
  induction t generalizing h with
  | nil => exact Nat.le_of_eq (congrArg time (List.append_nil h).symm)
  | cons e t ih =>
    rw [List.append_cons]
    exact Nat.le_trans (hF.later h e) ih

theorem Prompt.timely (hF : Prompt F time) : Timely F time where
  clock := hF.clock
  later h e := by
    obtain ⟨c, a⟩ := e
    cases c with
    | pause d =>
      refine Nat.le_trans ?_ (Nat.le_of_eq (hF.pause h d).symm)
      exact Nat.le_trans (Nat.le_add_right ..) (Clock.le_tick _)
    | _ => exact Nat.le_of_eq (hF.stays h _ fun d hd => by cases hd).symm
  pause h d := (hF.pause h d).symm ▸ Clock.le_tick _

theorem Timed.time_clock {alarm : Nat → Nat} (hF : Timed alarm F time) {now : Nat} :
    time (h ++ [⟨.clock, now⟩]) = time h :=
  hF.stays h _ fun _ hd => by cases hd

theorem Timed.stays_append {alarm : Nat → Nat} (hF : Timed alarm F time)
    (ht : ∀ e ∈ t, ∀ d, e.call ≠ Call.pause d) : time (h ++ t) = time h := by
  induction t generalizing h with
  | nil => rw [List.append_nil]
  | cons e t ih =>
    obtain ⟨he, ht⟩ := List.forall_mem_cons.1 ht
    rw [List.append_cons, ih ht, hF.stays h e he]

end

/-- Whatever is answered, a routine comes to its end. -/
theorem exists_ends {α : Type} (p : Routine α) (F : Behaviour client) (h : List (Asked client)) :
    ∃ t a, Ends Empty.elim F h ⟨p, []⟩ t a [] := by
  induction p generalizing h with
  | done a => exact ⟨[], a, .done⟩
  | call c k ih =>
    obtain ⟨t, a, he⟩ := ih (F h c) (h ++ [⟨c, F h c⟩])
    exact ⟨_, a, .call he⟩
  | owe r => cases r
  | settle p ih =>
    obtain ⟨t, a, he⟩ := ih h
    exact ⟨t, a, .clear he⟩

/-! ## Scripts -/

/-- How a script is run, and what is read from the reply: at once, or after the server was sent the
text of the script, or not at all if that fails. -/
inductive Ran {α : Type} (script : Script) (keys : List Name) (arguments : List Argument)
    (read : Reply → Except GuardError α) : List (Asked client) → Except GuardError α → Prop
  | known {reply : Reply} : reply.isUnknownScript = false →
    Ran script keys arguments read [⟨.send (.run script keys arguments), reply⟩] (read reply)
  | sent {reply loaded reply' : Reply} : reply.isUnknownScript = true → loaded.failure? = none →
    Ran script keys arguments read
      [⟨.send (.run script keys arguments), reply⟩, ⟨.send (.load script), loaded⟩,
        ⟨.send (.run script keys arguments), reply'⟩] (read reply')
  | unsent {reply loaded : Reply} {e : GuardError} : reply.isUnknownScript = true →
    loaded.failure? = some e →
    Ran script keys arguments read
      [⟨.send (.run script keys arguments), reply⟩, ⟨.send (.load script), loaded⟩] (.error e)

section

variable {α : Type} {script : Script} {keys : List Name} {arguments : List Argument}
  {read : Reply → Except GuardError α} {t : List (Asked client)} {a : Except GuardError α}

theorem run_yields :
    Yields Empty.elim (Ran script keys arguments read) (run script keys arguments read) := by
  refine .call fun (reply : Reply) => ?_
  show Yields _ _ (if reply.isUnknownScript then _ else _)
  split
  · rename_i hreply
    refine .call fun (loaded : Reply) => ?_
    cases hl : loaded.failure? with
    | some e => exact .done (.unsent hreply hl)
    | none => exact .call fun (reply' : Reply) => .done (.sent hreply hl)
  · rename_i hreply
    exact .done (.known (Bool.eq_false_iff.2 hreply))

/-- All that is sent while a script is run. -/
theorem Ran.calls (hr : Ran script keys arguments read t a) :
    ∀ e ∈ t, e.call = Call.send (.run script keys arguments) ∨
      e.call = Call.send (.load script) := by
  cases hr with
  | known => exact List.forall_mem_cons.2 ⟨.inl rfl, List.forall_mem_nil _⟩
  | sent =>
    refine List.forall_mem_cons.2 ⟨.inl rfl, List.forall_mem_cons.2 ⟨.inr rfl, ?_⟩⟩
    exact List.forall_mem_cons.2 ⟨.inl rfl, List.forall_mem_nil _⟩
  | unsent =>
    refine List.forall_mem_cons.2 ⟨.inl rfl, ?_⟩
    exact List.forall_mem_cons.2 ⟨.inr rfl, List.forall_mem_nil _⟩

theorem Ran.not_pause (hr : Ran script keys arguments read t a) :
    ∀ e ∈ t, ∀ d, e.call ≠ Call.pause d := by
  intro e he d hd
  rcases hr.calls e he with h | h <;> cases h.symm.trans hd

theorem Ran.head (hr : Ran script keys arguments read t a) :
    ∃ (reply : Reply) (rest : List (Asked client)),
      t = ⟨.send (.run script keys arguments), reply⟩ :: rest := by
  cases hr <;> exact ⟨_, _, rfl⟩

end

namespace Lock

/-! ## The course of a call -/

/-- A poll that was denied in time, and the pause until the next one. -/
structure Turn where
  calls : List (Asked client)
  answer : Int
  now : Nat
  pause : Duration

def Turn.trace (x : Turn) : List (Asked client) :=
  x.calls ++ [⟨.clock, x.now⟩, ⟨.pause x.pause, ()⟩]

/-- The polls before the last one, the last one and its answer, and what is done after it. -/
structure Course where
  turns : List Turn
  last : List (Asked client)
  answer : Except GuardError Int
  closing : List (Asked client)

def Course.trace (c : Course) : List (Asked client) :=
  c.turns.flatMap Turn.trace ++ (c.last ++ c.closing)

def Course.polls (c : Course) : Nat := c.turns.length + 1

/-- One poll: the same keys and arguments every time. -/
abbrev Acquired (lease : Duration) (key : String) (owner : Ulid) :
    List (Asked client) → Except GuardError Int → Prop :=
  Ran .acquire (keys key)
    [.owner owner, .number (atLeastOneMilli lease), .number heartbeatMillis] Reply.int64

abbrev Abandoned (key : String) (owner : Ulid) :
    List (Asked client) → Except GuardError Int → Prop :=
  Ran .abandon (keys key) [.owner owner] Reply.int64

/-- What follows the last poll, by its answer. -/
inductive Closes (lease : Duration) (key : String) (owner : Ulid) (deadline : Nat) :
    Except GuardError Int → List (Asked client) → Except GuardError Bool → Prop
  | granted :
    Closes lease key owner deadline (.ok 1) [⟨.watch (.lock key) owner lease, ()⟩] (.ok true)
  | failed (e : GuardError) : Closes lease key owner deadline (.error e) [] (.error e)
  | gaveUp {x : Int} {now : Nat} {calls : List (Asked client)} {a : Except GuardError Int} :
    x ≠ 1 → deadline ≤ now → Abandoned key owner calls a →
    Closes lease key owner deadline (.ok x) (⟨.clock, now⟩ :: calls) (.ok false)

/-- The poll was denied, and not too late. -/
structure Turn.Denied (lease : Duration) (key : String) (owner : Ulid) (deadline : Nat) (x : Turn) :
    Prop where
  acquired : Acquired lease key owner x.calls (.ok x.answer)
  answer : x.answer ≠ 1
  inTime : x.now < deadline
  /-- The pause is the usual one, or what is left of the wait. -/
  pause : x.pause.nanos = min 20_000_000 (deadline - x.now)

/-- The course of a call that ends with `r`. -/
structure Course.Leads (lease : Duration) (key : String) (owner : Ulid) (deadline : Nat)
    (c : Course) (r : Except GuardError Bool) : Prop where
  turns : ∀ x ∈ c.turns, x.Denied lease key owner deadline
  last : Acquired lease key owner c.last c.answer
  closes : Closes lease key owner deadline c.answer c.closing r

section

variable {lease : Duration} {key : String} {owner : Ulid} {deadline now : Nat} {c : Course}
  {x : Turn} {r : Except GuardError Bool} {F : Behaviour client} {time : List (Asked client) → Nat}
  {h t : List (Asked client)}

def Course.cons (x : Turn) (c : Course) : Course := { c with turns := x :: c.turns }

theorem Course.trace_cons : (c.cons x).trace = x.trace ++ c.trace :=
  List.append_assoc ..

theorem Course.Leads.cons (hc : c.Leads lease key owner deadline r)
    (hx : x.Denied lease key owner deadline) : (c.cons x).Leads lease key owner deadline r where
  turns := List.forall_mem_cons.2 ⟨hx, hc.turns⟩
  last := hc.last
  closes := hc.closes

theorem nanos_pause :
    (min pollInterval (Clock.since deadline now)).nanos = min 20_000_000 (deadline - now) := by
  have hinterval : pollInterval.nanos = 20_000_000 := rfl
  have hsince : (Clock.since deadline now).nanos =
      min (deadline - now) 18_446_744_073_709_551_615_999_999_999 := rfl
  show (if pollInterval.nanos ≤ (Clock.since deadline now).nanos then _ else _ : Duration).nanos = _
  split <;> omega

theorem giveUp_ends (key : String) (owner : Ulid) (F : Behaviour client) (h : List (Asked client)) :
    ∃ calls a, Ends Empty.elim F h ⟨giveUp key owner, []⟩ calls (.ok false) [] ∧
      Abandoned key owner calls a := by
  have hrun : Yields Empty.elim (Abandoned key owner) _ := run_yields
  obtain ⟨calls, a, he, ha⟩ := hrun.ends F h
  refine ⟨calls, a, ?_, ha⟩
  rw [← List.append_nil calls]
  exact he.bind .done

/-- One poll is the last one, or it is denied in time and another one follows. -/
theorem poll_cases (hF : Timely F time) (h : List (Asked client)) (fuel : Nat) :
    (∃ (c : Course) (r : Except GuardError Bool), c.turns = [] ∧
        c.Leads lease key owner deadline r ∧
        Ends Empty.elim F h ⟨poll lease key owner deadline (fuel + 1), []⟩ c.trace r []) ∨
      ∃ x : Turn, x.Denied lease key owner deadline ∧ x.now = time (h ++ x.calls) ∧
        ∀ {t r}, Ends Empty.elim F (h ++ x.trace) ⟨poll lease key owner deadline fuel, []⟩ t r [] →
          Ends Empty.elim F h ⟨poll lease key owner deadline (fuel + 1), []⟩ (x.trace ++ t) r
            [] := by
  have hrun : Yields Empty.elim (Acquired lease key owner) _ := run_yields
  obtain ⟨calls, a, he, ha⟩ := hrun.ends F h
  cases a with
  | error e => exact .inl ⟨⟨[], calls, .error e, []⟩, _, rfl, ⟨nofun, ha, .failed e⟩, he.bind .done⟩
  | ok answer =>
    by_cases hanswer : answer = 1
    · subst hanswer
      refine .inl ⟨⟨[], calls, .ok 1, _⟩, _, rfl, ⟨nofun, ha, .granted⟩, he.bind ?_⟩
      exact .call .done
    · have hnow : F (h ++ calls) Call.clock = time (h ++ calls) := hF.clock _
      by_cases hlate : deadline ≤ time (h ++ calls)
      · obtain ⟨rest, a, hrest, habandoned⟩ :=
          giveUp_ends key owner F (h ++ calls ++ [⟨Call.clock, time (h ++ calls)⟩])
        refine .inl ⟨⟨[], calls, .ok answer, _⟩, _, rfl,
          ⟨nofun, ha, .gaveUp hanswer hlate habandoned⟩, he.bind ?_⟩
        show Ends _ _ _ ⟨if answer = 1 then _ else _, []⟩ _ _ _
        rw [if_neg hanswer]
        refine .ask hnow ?_
        show Ends _ _ _ ⟨if deadline ≤ time (h ++ calls) then _ else _, []⟩ _ _ _
        rw [if_pos hlate]
        exact hrest
      · refine .inr ⟨⟨calls, answer, time (h ++ calls), min pollInterval (Clock.since deadline _)⟩,
          ⟨ha, hanswer, Nat.lt_of_not_le hlate, nanos_pause⟩, rfl, fun {t r} ht => ?_⟩
        rw [Turn.trace, ← List.append_assoc, List.append_cons] at ht
        rw [Turn.trace, List.append_assoc]
        refine he.bind ?_
        show Ends _ _ _ ⟨if answer = 1 then _ else _, []⟩ _ _ _
        rw [if_neg hanswer]
        refine .ask hnow ?_
        show Ends _ _ _ ⟨if deadline ≤ time (h ++ calls) then _ else _, []⟩ _ _ _
        rw [if_neg hlate]
        exact .ask rfl ht

/-- The next poll begins after the pause. -/
theorem le_trace (hF : Timely F time) (hnow : x.now = time (h ++ x.calls)) :
    x.now + x.pause.nanos ≤ time (h ++ x.trace) := by
  rw [Turn.trace, ← List.append_assoc, List.append_cons, hnow]
  exact Nat.le_trans (Nat.add_le_add_right (hF.later ..) _) (hF.pause ..)

/-- The wait is over before the polls are: `k` pauses are as long as what is left of it. -/
theorem poll_ends (hF : Timely F time) (k : Nat) {fuel : Nat} (hk : k < fuel)
    (hD : deadline ≤ time h + k * 20_000_000) :
    ∃ (c : Course) (r : Except GuardError Bool), c.turns.length ≤ k ∧
      c.Leads lease key owner deadline r ∧
      Ends Empty.elim F h ⟨poll lease key owner deadline fuel, []⟩ c.trace r [] := by
  induction k generalizing fuel h with
  | zero =>
    obtain ⟨fuel, rfl⟩ : ∃ m, fuel = m + 1 := ⟨fuel - 1, by omega⟩
    rcases poll_cases hF h fuel with ⟨c, r, hnone, hc, he⟩ | ⟨x, hx, hnow, -⟩
    · exact ⟨c, r, Nat.le_of_eq (congrArg List.length hnone), hc, he⟩
    · have hlater : time h ≤ time (h ++ x.calls) := hF.le_append
      have hinTime := hx.inTime
      omega
  | succ k ih =>
    obtain ⟨fuel, rfl⟩ : ∃ m, fuel = m + 1 := ⟨fuel - 1, by omega⟩
    rcases poll_cases hF h fuel with ⟨c, r, hnone, hc, he⟩ | ⟨x, hx, hnow, hrest⟩
    · refine ⟨c, r, ?_, hc, he⟩
      rw [hnone]
      exact Nat.zero_le _
    · have hnext : deadline ≤ time (h ++ x.trace) + k * 20_000_000 := by
        have hpaused := le_trace hF hnow
        have hlater : time h ≤ time (h ++ x.calls) := hF.le_append
        have hpause := hx.pause
        omega
      obtain ⟨c, r, hlen, hc, he⟩ := ih (Nat.lt_of_succ_lt_succ hk) hnext
      refine ⟨c.cons x, r, Nat.succ_le_succ hlen, hc.cons hx, ?_⟩
      rw [Course.trace_cons]
      exact hrest he

/-! ### What is seen from outside -/

/-- Calls of which polls and the pauses between them consist. -/
def IsPolling : Call → Prop
  | .clock | .pause _ | .send (.run .acquire _ _) | .send (.load .acquire) => True
  | _ => False

def IsWatch : Call → Prop
  | .watch _ _ _ => True
  | _ => False

def IsAbandon : Call → Prop
  | .send (.run .abandon _ _) => True
  | _ => False

namespace Closes

variable {a : Except GuardError Int}

theorem eq_true_iff (hc : Closes lease key owner deadline a t r) : r = .ok true ↔ a = .ok 1 := by
  cases hc with
  | granted => simp
  | failed => simp
  | gaveUp hx => simp [hx]

theorem eq_error_iff (hc : Closes lease key owner deadline a t r) {e : GuardError} :
    r = .error e ↔ a = .error e := by
  cases hc <;> simp

/-- Only a lock that was granted is watched. -/
theorem watch_iff (hc : Closes lease key owner deadline a t r) :
    r = .ok true ↔ ∃ e ∈ t, IsWatch e.call := by
  cases hc with
  | granted => exact iff_of_true rfl ⟨_, List.mem_singleton_self _, trivial⟩
  | failed => simp
  | gaveUp _ _ ha =>
    refine iff_of_false nofun ?_
    rintro ⟨e, he, hcall⟩
    rcases List.mem_cons.1 he with rfl | he
    · exact hcall
    · rcases ha.calls e he with h | h
      · rwa [h] at hcall
      · rwa [h] at hcall

/-- Only who gives up leaves the queue. -/
theorem abandon_iff (hc : Closes lease key owner deadline a t r) :
    r = .ok false ↔ ∃ e ∈ t, IsAbandon e.call := by
  cases hc with
  | granted =>
    refine iff_of_false nofun ?_
    rintro ⟨e, he, hcall⟩
    obtain rfl := List.mem_singleton.1 he
    exact hcall
  | failed => simp
  | gaveUp _ _ ha =>
    obtain ⟨reply, rest, rfl⟩ := ha.head
    exact iff_of_true rfl ⟨_, List.mem_cons_of_mem _ (List.mem_cons_self ..), trivial⟩

end Closes

theorem isPolling_of_acquired {a : Except GuardError Int} (ha : Acquired lease key owner t a) :
    ∀ e ∈ t, IsPolling e.call := by
  intro e he
  rcases ha.calls e he with h | h
  · rw [h]
    trivial
  · rw [h]
    trivial

namespace Course.Leads

/-- A call of another kind is made at the end. -/
theorem mem_closing_iff (hc : c.Leads lease key owner deadline r) {e : Asked client}
    (hnot : ¬IsPolling e.call) : e ∈ c.trace ↔ e ∈ c.closing := by
  refine ⟨fun he => ?_, fun he => List.mem_append_right _ (List.mem_append_right _ he)⟩
  rcases List.mem_append.1 he with he | he
  · obtain ⟨x, hx, he⟩ := List.mem_flatMap.1 he
    rcases List.mem_append.1 he with he | he
    · exact absurd (isPolling_of_acquired (hc.turns x hx).acquired e he) hnot
    · rcases List.mem_cons.1 he with rfl | he
      · exact absurd trivial hnot
      · obtain rfl := List.mem_singleton.1 he
        exact absurd trivial hnot
  · rcases List.mem_append.1 he with he | he
    · exact absurd (isPolling_of_acquired hc.last e he) hnot
    · exact he

theorem exists_mem_iff (hc : c.Leads lease key owner deadline r) {P : Call → Prop}
    (hP : ∀ call, P call → ¬IsPolling call) :
    (∃ e ∈ c.trace, P e.call) ↔ ∃ e ∈ c.closing, P e.call :=
  exists_congr fun _ => and_congr_left fun he => hc.mem_closing_iff (hP _ he)

theorem watch_iff (hc : c.Leads lease key owner deadline r) :
    r = .ok true ↔ ∃ e ∈ c.trace, IsWatch e.call := by
  refine hc.closes.watch_iff.trans (hc.exists_mem_iff fun call hcall => ?_).symm
  unfold IsWatch at hcall
  split at hcall
  · exact id
  · exact hcall.elim

theorem abandon_iff (hc : c.Leads lease key owner deadline r) :
    r = .ok false ↔ ∃ e ∈ c.trace, IsAbandon e.call := by
  refine hc.closes.abandon_iff.trans (hc.exists_mem_iff fun call hcall => ?_).symm
  unfold IsAbandon at hcall
  split at hcall
  · exact id
  · exact hcall.elim

end Course.Leads

/-! ### A server that denies the lock -/

/-- Every poll is answered with a number other than one. -/
def Denies (F : Behaviour client) : Prop :=
  ∀ h names arguments, ∃ x, x ≠ 1 ∧
    Reply.int64 (F h (Call.send (.run .acquire names arguments))) = .ok x

theorem Denies.acquired (hF : Denies F) {a : Except GuardError Int} (hF' : Answered F h t)
    (ha : Acquired lease key owner t a) : a ≠ .ok 1 ∧ ∀ e, a ≠ .error e := by
  obtain ⟨reply, rest, ht⟩ := ha.head
  obtain ⟨x, hx, hread⟩ := hF h (keys key)
    [.owner owner, .number (atLeastOneMilli lease), .number heartbeatMillis]
  rw [ht] at hF'
  rw [← hF'.1] at hread
  have hknown : ¬reply.isUnknownScript = true := fun hu => by
    obtain ⟨e, he⟩ := Sim.int64_of_isUnknownScript hu
    cases he.symm.trans hread
  cases ha with
  | known _ =>
    cases ht
    rw [hread]
    simp [hx]
  | sent hu _ =>
    cases ht
    exact absurd hu hknown
  | unsent hu _ =>
    cases ht
    exact absurd hu hknown

theorem Course.Leads.denied (hc : c.Leads lease key owner deadline r) (hF : Denies F)
    (ha : Answered F h c.trace) : r = .ok false := by
  rw [Course.trace, answered_append, answered_append] at ha
  obtain ⟨hgranted, hfailed⟩ := hF.acquired ha.2.1 hc.last
  match r with
  | .ok true => exact absurd (hc.closes.eq_true_iff.1 rfl) hgranted
  | .ok false => rfl
  | .error e => exact absurd (hc.closes.eq_error_iff.1 rfl) (hfailed e)

/-! ### A server that is prompt -/

/-- How many polls follow one at `now` that is denied, if nothing else takes time. -/
def rounds (deadline now : Nat) : Nat :=
  if deadline ≤ now then 0
  else (deadline - (Clock.tick now + 20_000_000) + 19_999_999) / 20_000_000 + 1

theorem rounds_pause (h : now < deadline) :
    rounds deadline now =
      rounds deadline (Clock.tick (now + min 20_000_000 (deadline - now))) + 1 := by
  unfold rounds Clock.tick
  rw [if_neg (Nat.not_le.2 h)]
  split <;> omega

theorem rounds_eq {start wait : Nat} (h : Clock.tick start = start ∨ Clock.tick wait = wait) :
    rounds (start + wait) start = (wait + 19_999_999) / 20_000_000 := by
  unfold Clock.tick at h
  unfold rounds Clock.tick
  split <;> omega

theorem end_eq {start wait : Nat} (h : Clock.tick start = start) :
    (if start + wait ≤ start then start else Clock.tick (start + wait)) =
      start + Clock.tick wait := by
  have hwhole : start % 1_000_000 = 0 := by
    unfold Clock.tick at h
    omega
  have hadd : Clock.tick (start + wait) = start + Clock.tick wait := by
    unfold Clock.tick
    omega
  split
  · obtain rfl : wait = 0 := by omega
    rfl
  · exact hadd

/-- A poll takes no time, and the pause after it ends at a whole millisecond. -/
theorem Turn.Denied.next (hx : x.Denied lease key owner deadline) (hF : Prompt F time)
    (ha : Answered F h x.trace) : x.now = time h ∧
      time (h ++ x.trace) = Clock.tick (time h + min 20_000_000 (deadline - time h)) := by
  have hcalls : time (h ++ x.calls) = time h := hF.stays_append hx.acquired.not_pause
  have hnow : x.now = time h := by
    rw [Turn.trace, answered_append] at ha
    exact ha.2.1.trans ((hF.clock _).trans hcalls)
  refine ⟨hnow, ?_⟩
  have hclock : time (h ++ x.calls ++ [⟨.clock, x.now⟩]) = time h := hF.time_clock.trans hcalls
  have hpause : time (h ++ x.trace) =
      Clock.tick (time (h ++ x.calls ++ [⟨.clock, x.now⟩]) + x.pause.nanos) := by
    rw [Turn.trace, ← List.append_assoc, List.append_cons]
    exact hF.pause _ _
  rw [hpause, hclock, hx.pause, hnow]

/-- The invariant is that the time is one at which a poll is made. -/
theorem rounds_of_denied (hF : Prompt F time) {xs : List Turn}
    (hxs : ∀ x ∈ xs, x.Denied lease key owner deadline) (ha : Answered F h (xs.flatMap Turn.trace))
    (hlate : deadline ≤ time (h ++ xs.flatMap Turn.trace)) :
    xs.length = rounds deadline (time h) ∧ time (h ++ xs.flatMap Turn.trace) =
      if deadline ≤ time h then time h else Clock.tick deadline := by
  induction xs generalizing h with
  | nil =>
    rw [List.flatMap_nil, List.append_nil] at hlate ⊢
    rw [rounds, if_pos hlate, if_pos hlate]
    exact ⟨rfl, rfl⟩
  | cons x xs ih =>
    obtain ⟨hx, hxs⟩ := List.forall_mem_cons.1 hxs
    rw [List.flatMap_cons, answered_append] at ha
    rw [List.flatMap_cons, ← List.append_assoc] at hlate ⊢
    obtain ⟨hnow, hnext⟩ := hx.next hF ha.1
    have hlt : time h < deadline := hnow ▸ hx.inTime
    obtain ⟨hlen, hend⟩ := ih hxs ha.2 hlate
    rw [hnext] at hlen hend
    rw [List.length_cons, hlen, ← rounds_pause hlt, hend, if_neg (Nat.not_le.2 hlt)]
    refine ⟨rfl, ?_⟩
    unfold Clock.tick
    split <;> omega

/-- What follows the last pause takes no time. -/
theorem Course.Leads.rounds (hc : c.Leads lease key owner deadline (.ok false)) (hF : Prompt F time)
    (ha : Answered F h c.trace) : c.turns.length = Lock.rounds deadline (time h) ∧
      time (h ++ c.trace) = if deadline ≤ time h then time h else Clock.tick deadline := by
  obtain ⟨turns, last, answer, closing⟩ := c
  obtain ⟨hturns, hlast, hcloses⟩ := hc
  cases hcloses with
  | @gaveUp _ now calls _ _ hlate hcalls =>
    have hrest : ∀ e ∈ last ++ ⟨Call.clock, now⟩ :: calls, ∀ d, e.call ≠ Call.pause d := by
      refine List.forall_mem_append.2 ⟨hlast.not_pause, ?_⟩
      exact List.forall_mem_cons.2 ⟨fun d hd => (by cases hd), hcalls.not_pause⟩
    rw [Course.trace, answered_append, answered_append] at ha
    have hnow : now = time (h ++ turns.flatMap Turn.trace) := by
      rw [← hF.stays_append hlast.not_pause]
      exact ha.2.2.1.trans (hF.clock _)
    rw [Course.trace, ← List.append_assoc, hF.stays_append hrest]
    exact rounds_of_denied hF hturns ha.1 (hnow ▸ hlate)

end

/-! ## Every call -/

/-- How the course of a call, the calls that it makes and its result `r` hang together. -/
structure Protocol (F : Behaviour client) (time : List (Asked client) → Nat)
    (h : List (Asked client)) (lease : Duration) (key : String) (owner : Ulid) (wait : Duration)
    (c : Course) (r : Except GuardError Bool) : Prop
    extends c.Leads lease key owner (time h + wait.nanos) r where
  ends : Ends Empty.elim F h ⟨take lease key owner wait, []⟩ (⟨.clock, time h⟩ :: c.trace) r []
  /-- The lock is taken if the last poll was granted, and then it is watched. -/
  granted : (r = .ok true ↔ c.answer = .ok 1) ∧ (r = .ok true ↔ ∃ e ∈ c.trace, IsWatch e.call)
  failed (e : GuardError) : r = .error e ↔ c.answer = .error e
  /-- A call that gives up leaves the queue, and no other does. -/
  gaveUp : r = .ok false ↔ ∃ e ∈ c.trace, IsAbandon e.call
  few : c.polls ≤ (wait.nanos + 19_999_999) / 20_000_000 + 1
  denied : Denies F → r = .ok false
  /-- If only pauses take time, a call that gives up has made all polls for which there is time. The
  timer knows whole milliseconds only: either the start or the wait has to be one for the usual
  count. -/
  polls : Prompt F time → r = .ok false →
    c.polls = rounds (time h + wait.nanos) (time h) + 1 ∧
      (Clock.tick (time h) = time h ∨ Clock.tick wait.nanos = wait.nanos →
        c.polls = (wait.nanos + 19_999_999) / 20_000_000 + 1)
  /-- Then it ends at its deadline, in whole milliseconds. -/
  duration : Prompt F time → r = .ok false →
    (0 < wait.nanos →
        time (h ++ ⟨.clock, time h⟩ :: c.trace) = Clock.tick (time h + wait.nanos)) ∧
      (Clock.tick (time h) = time h →
        time (h ++ ⟨.clock, time h⟩ :: c.trace) = time h + Clock.tick wait.nanos)

section

variable {F : Behaviour client} {time : List (Asked client) → Nat} {key : String} {wait : Duration}

theorem take_ends (hkey : Limits.checkKey key = .ok ()) (hwait : Limits.checkWait wait = .ok ())
    (hF : Timely F time) (h : List (Asked client)) (lease : Duration) (owner : Ulid) :
    ∃ (c : Course) (r : Except GuardError Bool),
      c.turns.length ≤ (wait.nanos + 19_999_999) / 20_000_000 ∧
      c.Leads lease key owner (time h + wait.nanos) r ∧
      Ends Empty.elim F h ⟨take lease key owner wait, []⟩ (⟨.clock, time h⟩ :: c.trace) r [] := by
  have hlater : time h ≤ time (h ++ [⟨.clock, time h⟩]) := hF.later ..
  have hk : (wait.nanos + 19_999_999) / 20_000_000 < Remote.polls wait := by
    unfold Remote.polls Clock.millis Clock.tick
    omega
  have hpoll : ∃ (c : Course) (r : Except GuardError Bool),
      c.turns.length ≤ (wait.nanos + 19_999_999) / 20_000_000 ∧
      c.Leads lease key owner (time h + wait.nanos) r ∧
      Ends Empty.elim F (h ++ [⟨.clock, time h⟩])
        ⟨poll lease key owner (time h + wait.nanos) (Remote.polls wait), []⟩ c.trace r [] :=
    poll_ends hF _ hk (by omega)
  obtain ⟨c, r, hlen, hc, he⟩ := hpoll
  refine ⟨c, r, hlen, hc, ?_⟩
  unfold take
  rw [hkey, hwait]
  exact .ask (hF.clock h) he

/-- Whatever the server replies and whatever takes time, the call comes to its end in this way. -/
theorem take_protocol (hkey : Limits.checkKey key = .ok ())
    (hwait : Limits.checkWait wait = .ok ()) (hF : Timely F time) (h : List (Asked client))
    (lease : Duration) (owner : Ulid) : ∃ c r, Protocol F time h lease key owner wait c r := by
  obtain ⟨c, r, hlen, hc, hends⟩ := take_ends hkey hwait hF h lease owner
  have hanswered : Answered F (h ++ [⟨.clock, time h⟩]) c.trace := hends.answered.2
  have hprompt (hp : Prompt F time) (hr : r = .ok false) :
      c.turns.length = Lock.rounds (time h + wait.nanos) (time h) ∧
        time (h ++ ⟨.clock, time h⟩ :: c.trace) =
          if time h + wait.nanos ≤ time h then time h else Clock.tick (time h + wait.nanos) := by
    subst hr
    have hrounds := hc.rounds hp hanswered
    rw [hp.time_clock] at hrounds
    rw [List.append_cons]
    exact hrounds
  refine ⟨c, r, ?_⟩
  exact {
    toLeads := hc
    ends := hends
    granted := ⟨hc.closes.eq_true_iff, hc.watch_iff⟩
    failed := fun e => hc.closes.eq_error_iff
    gaveUp := hc.abandon_iff
    few := Nat.succ_le_succ hlen
    denied := fun hdenies => hc.denied hdenies hanswered
    polls := fun hp hr => by
      have hcount : c.polls = _ + 1 := congrArg (· + 1) (hprompt hp hr).1
      exact ⟨hcount, fun hwhole => rounds_eq hwhole ▸ hcount⟩
    duration := fun hp hr => by
      have hend := (hprompt hp hr).2
      refine ⟨fun hpos => ?_, fun hwhole => hend.trans (end_eq hwhole)⟩
      rwa [if_neg (by omega)] at hend }

end

/-! ### An example -/

/-- When a call that begins at `t` is over, if only pauses take time. -/
def overAt (t : Nat) : Call → Nat
  | .pause d => Clock.tick (t + d.nanos)
  | _ => t

def elapsed (h : List (Asked client)) : Nat := h.foldl (fun t e => overAt t e.call) 0

theorem elapsed_concat (h : List (Asked client)) (e : Asked client) :
    elapsed (h ++ [e]) = overAt (elapsed h) e.call := by
  rw [elapsed, List.foldl_append]
  rfl

/-- A server whose lock nobody gets. -/
def denying : Behaviour client
  | h, .clock => elapsed h
  | _, .send _ => Reply.int 0
  | _, .takeLatest _ => none
  | _, .pause _ | _, .watch _ _ _ | _, .unwatch _ _ | _, .remember _ _ _ => ()

theorem elapsed_prompt {F : Behaviour client} (hF : ∀ h, F h Call.clock = elapsed h) :
    Prompt F elapsed where
  clock := hF
  stays h e he := by
    rw [elapsed_concat]
    obtain ⟨c, a⟩ := e
    cases c with
    | pause d => exact absurd rfl (he d)
    | _ => rfl
  pause h d := elapsed_concat ..

theorem denying_prompt : Prompt denying elapsed := elapsed_prompt fun _ => rfl

/-- A wait of 50 ms: four polls, the last one at its end. -/
theorem sample_protocol : Limits.checkKey "table" = .ok () ∧
    Limits.checkWait (.ofMillis 50) = .ok () ∧ Timely denying elapsed ∧
    ∃ c r, Protocol denying elapsed [] (.ofMillis 300) "table" ⟨0⟩ (.ofMillis 50) c r ∧
      r = .ok false ∧ c.polls = 4 ∧ elapsed (⟨.clock, elapsed []⟩ :: c.trace) = 50_000_000 := by
  have hkey : Limits.checkKey "table" = .ok () := by decide
  have hwait : Limits.checkWait (.ofMillis 50) = .ok () := by decide
  have htimely := denying_prompt.timely
  obtain ⟨c, r, h⟩ := take_protocol hkey hwait htimely [] (.ofMillis 300) ⟨0⟩
  have hr : r = .ok false := h.denied fun _ _ _ => ⟨0, by decide, rfl⟩
  have hstart : elapsed [] = 0 := rfl
  have hnanos : (Duration.ofMillis 50).nanos = 50_000_000 := rfl
  have hwhole : Clock.tick (elapsed []) = elapsed [] := rfl
  have hpolls := (h.polls denying_prompt hr).2 (.inl hwhole)
  have hend := (h.duration denying_prompt hr).2 hwhole
  rw [hnanos] at hpolls hend
  rw [hstart, Nat.zero_add] at hend
  exact ⟨hkey, hwait, htimely, c, r, h, hr, hpolls, hend⟩

end Lock

end Turnstile.Remote
