import Turnstile.Proofs.Remote.Watch

/-!
# When leases run out

`Yard.reach_watched` says for which owners the table of a client has an entry and a lease is
renewed: from the grant of their lock until its release is answered with a number. A section whose
release fails, or finds the lock lost, ends without such an answer, and its watchdog goes on
(`watchdog_outlives`).
-/

namespace Turnstile.Sim

open Remote (Name)

variable {n : Nat} {y : Yard} {u : Ulid}

/-- For a section that waits or has ended: its watchdog is there from the grant to the release. -/
theorem Stage.watched?_iff {φ : Stage} (h : φ.IsOpen) :
    φ.watched? = some u ↔ φ.granted? = some u ∧ φ.freed? ≠ some u := by
  cases φ with
  | asking v => simp [watched?, granted?]
  | kept v => simp [watched?, granted?, freed?, owner?]
  | closed v => simp [watched?, granted?, freed?, owner?]
  | _ => cases h

namespace Section

/-- The section asks for its lock under this owner. -/
def IsOf (s : Section) (u : Ulid) : Prop := ∃ e ∈ s.trace, made? e = some u

/-- A try for the lock was answered with its grant. -/
def WasGranted (s : Section) (u : Ulid) : Prop := ∃ e ∈ s.trace, grant? e = some (.lock s.key, u)

/-- The release of the lock was answered with a number. -/
def WasFreed (s : Section) (u : Ulid) : Prop := ∃ e ∈ s.trace, free? e = some (.lock s.key, u)

def HasEnded (s : Section) : Prop := s.strand.result?.isSome

/-- The section waits for something, or has ended. -/
def Rests (s : Section) : Prop :=
  (∃ op : Wait, s.strand.call? = some (.wait op)) ∨ s.HasEnded

theorem Rests.isOpen {s : Section} (h : s.Rests)
    (hk : Keeps n s.key (fun _ φ _ => φ.IsOpen) s.stage s.strand) : s.stage.IsOpen := by
  rcases h with ⟨op, hop⟩ | he
  · exact (hk.ok_of_call hop).1.isOpen
  · obtain ⟨r, hr⟩ := Option.isSome_iff_exists.1 he
    exact hk.end_of_result hr

end Section

/-- Somebody who was not stopped is about to send the command. -/
def Yard.Sends (y : Yard) (c : Remote.Command) : Prop :=
  (∃ s ∈ y.sections, s.strand.call? = some (.wait (.exchange c))) ∨
    ∃ k ∈ y.keepers, k.stopped = false ∧ k.strand.call? = some (.wait (.exchange c))

/-- Leases are kept alive for sections between the grant and the release of their locks. -/
structure Watched (n : Nat) (y : Yard) : Prop where
  entry : ∀ s ∈ y.sections, s.Rests → ∀ u, s.IsOf u →
    ((y.world.tag? n (.lock s.key) u).isSome ↔ s.WasGranted u ∧ ¬ s.WasFreed u)
  origin : ∀ lock u, (y.world.tag? n lock u).isSome →
    ∃ s ∈ y.sections, lock = .lock s.key ∧ s.IsOf u ∧ s.WasGranted u
  renewal : ∀ lock u keys args, y.Sends (.run .renew (lock :: keys) (.owner u :: args)) →
    ∃ s ∈ y.sections, lock = .lock s.key ∧ s.IsOf u ∧ s.WasGranted u ∧ (s.Rests → ¬ s.WasFreed u)
  ended : ∀ s ∈ y.sections, s.HasEnded → ∀ u, s.IsOf u → (s.WasGranted u → s.WasFreed u) →
    y.world.tag? n (.lock s.key) u = none ∧
      ∀ keys args, ¬ y.Sends (.run .renew (.lock s.key :: keys) (.owner u :: args))

namespace Guarded

variable (h : Guarded n y)
include h

theorem isOf {s : Section} (hs : s ∈ y.sections) : s.IsOf u ↔ s.stage.owner? = some u := by
  obtain ⟨i, hi⟩ := List.getElem?_of_mem hs
  exact (h.recorded i s hi).made u

theorem wasGranted {s : Section} (hs : s ∈ y.sections) :
    s.WasGranted u ↔ s.stage.granted? = some u := by
  obtain ⟨i, hi⟩ := List.getElem?_of_mem hs
  refine ((h.recorded i s hi).granted _).trans ?_
  simp

theorem wasFreed {s : Section} (hs : s ∈ y.sections) :
    s.WasFreed u ↔ s.stage.freed? = some u := by
  obtain ⟨i, hi⟩ := List.getElem?_of_mem hs
  refine ((h.recorded i s hi).freed _).trans ?_
  simp

/-- The entry of an owner is the entry of the section that made the owner up. -/
theorem entry_iff {s : Section} (hs : s ∈ y.sections) (hu : s.IsOf u) :
    (y.world.tag? n (.lock s.key) u).isSome ↔ s.stage.watched? = some u := by
  have ho := (h.isOf hs).1 hu
  obtain ⟨i, hi⟩ := List.getElem?_of_mem hs
  rw [h.entry]
  constructor
  · rintro ⟨j, x, hj, -, hx⟩
    cases h.apart i j s x u hi hj ho (Stage.owner?_of_watched? hx)
    rw [hi] at hj
    cases hj
    exact hx
  · intro hw
    exact ⟨i, s, hi, rfl, hw⟩

theorem rests {s : Section} (hs : s ∈ y.sections) (hr : s.Rests) (hu : s.IsOf u) :
    (y.world.tag? n (.lock s.key) u).isSome ↔ s.WasGranted u ∧ ¬ s.WasFreed u := by
  obtain ⟨i, hi⟩ := List.getElem?_of_mem hs
  rw [h.entry_iff hs hu, Stage.watched?_iff (hr.isOpen (h.keeps i s hi)), h.wasGranted hs,
    h.wasFreed hs]

theorem origin {lock : Name} (ht : (y.world.tag? n lock u).isSome) :
    ∃ s ∈ y.sections, lock = .lock s.key ∧ s.IsOf u ∧ s.WasGranted u := by
  obtain ⟨i, s, hi, hl, hw⟩ := (h.entry lock u).1 ht
  have hs := List.mem_of_getElem? hi
  refine ⟨s, hs, hl, (h.isOf hs).2 (Stage.owner?_of_watched? hw), (h.wasGranted hs).2 ?_⟩
  exact Stage.granted?_of_watched? hw

/-- Only a watchdog that is in the table renews. -/
theorem renewal {lock : Name} {keys : List Name} {args : List Remote.Argument}
    (hs : y.Sends (.run .renew (lock :: keys) (.owner u :: args))) :
    (y.world.tag? n lock u).isSome := by
  rcases hs with ⟨s, hs, hc⟩ | ⟨k, hk, hn, hc⟩
  · obtain ⟨i, hi⟩ := List.getElem?_of_mem hs
    have hok : Allowed n s.key s.stage _ := ((h.keeps i s hi).ok_of_call hc).1
    generalize s.stage = φ at hok
    cases hok with
    | aside _ ha => cases ha
  · obtain ⟨lock', u', g, -, ht, hr⟩ := h.minds k hk hn
    have hok : Renewal lock' u' _ := hr.ok_of_call hc
    cases hok with
    | renew args => rw [ht]; rfl

theorem watched : Watched n y where
  entry s hs hr u hu := h.rests hs hr hu
  origin lock u ht := h.origin ht
  renewal lock u keys args hs := by
    obtain ⟨s, hm, rfl, hu, hg⟩ := h.origin (h.renewal hs)
    exact ⟨s, hm, rfl, hu, hg, fun hr => ((h.rests hm hr hu).1 (h.renewal hs)).2⟩
  ended s hs he u hu hf := by
    have ht : ¬ (y.world.tag? n (.lock s.key) u).isSome := by
      rw [h.rests hs (.inr he) hu]
      exact fun hg => hg.2 (hf hg.1)
    refine ⟨Option.not_isSome_iff_eq_none.1 ht, fun keys args hr => ht (h.renewal hr)⟩

end Guarded

/-- In every run of sections over a client whose table is empty at first, its leases are kept alive
for sections between the grant and the release of their locks. -/
theorem Yard.reach_watched {w : World} (hn : n < w.clients.length)
    (hw : ∀ lock u, w.tag? n lock u = none) (h : Yard.Reach n w y) : Watched n y :=
  (h.guarded hn hw).watched

/-! ### A release that fails -/

/-- One node of a task, where `f` answers what may block and the world the rest. Nobody makes up an
owner. -/
def node? (f : (op : Wait) → op.Answer) (w : World) (s : Strand operations Pledge Ending) :
    Option (List (Asked operations) × World × Orders × Strand operations Pledge Ending) :=
  match s with
  | ⟨.done _, _⟩ => none
  | ⟨.call (.wait op) k, owed⟩ => some ([⟨.wait op, f op⟩], w, [], ⟨k (f op), owed⟩)
  | ⟨.call (.deed .newOwner) _, _⟩ => none
  | ⟨.call (.deed d) k, owed⟩ =>
    let (w', orders, a) := w.carryOut 0 d
    some ([⟨.deed d, a⟩], w', orders, ⟨k a, owed⟩)
  | ⟨.owe r p, owed⟩ => some ([], w, [], ⟨p, r :: owed⟩)
  | ⟨.settle p, r :: owed⟩ => some ([], w, [], ⟨(Pledge.code r).bind fun _ => p, owed⟩)
  | ⟨.settle p, []⟩ => some ([], w, [], ⟨p, []⟩)

theorem node_of_node? {f : (op : Wait) → op.Answer} {old : Ulid → Prop} {w w' : World}
    {s c : Strand operations Pledge Ending} {t : List (Asked operations)} {orders : Orders}
    (h : node? f w s = some (t, w', orders, c)) : Node old w s t w' orders c := by
  unfold node? at h
  split at h
  · cases h
  · cases h
    exact .wait (.call _ _ _ _)
  · cases h
  · rename_i hd
    cases h
    refine .deed (fun hn => ?_) (.call _ _ _ _)
    subst hn
    exact hd _ HEq.rfl rfl
  · cases h
    exact .inner (.owe _ _ _)
  · cases h
    exact .inner (.settle _ _ _)
  · cases h
    exact .inner (.clear _)

/-- One node of the first section. -/
def Yard.turn (f : (op : Wait) → op.Answer) (y : Yard) : Yard :=
  match y.sections[0]? with
  | none => y
  | some s =>
    match node? f y.world s.strand with
    | none => y
    | some (t, w, orders, c) =>
      { world := w
        sections := y.sections.set 0 { s with strand := c, trace := s.trace ++ t }
        keepers := orders.foldl obey y.keepers }

theorem Yard.Reach.turn {w : World} (h : Yard.Reach n w y) (f : (op : Wait) → op.Answer) :
    Yard.Reach n w (y.turn f) := by
  unfold Yard.turn
  split
  · exact h
  · rename_i s hs
    split
    · exact h
    · rename_i t w orders c hn
      exact h.step (.work y 0 s hs (node_of_node? hn))

theorem Yard.Reach.turns {w : World} (h : Yard.Reach n w y) (f : (op : Wait) → op.Answer)
    (m : Nat) : Yard.Reach n w (Nat.repeat (Yard.turn f) m y) := by
  induction m with
  | zero => exact h
  | succ m ih => exact ih.turn f

namespace Sample

def lease : Duration := .ofMillis 9000

def world : World := { World.fresh with clients := [⟨lease, 1, .empty, .empty⟩] }

def wiring : Wiring where
  rate := .remote 0
  lock := .remote 0
  permits := .remote 0
  spareRate := .remote 0
  spareLock := .unreachable
  sparePermits := .remote 0
  flags := .remote 0
  audience := .hub
  lease := lease

def owner : Ulid := .ofNat 7

/-- The lock is granted, but the server fails when it is asked for the holder. -/
def answers : (op : Wait) → op.Answer
  | .sleep _ => ()
  | .sleepUntil _ => ()
  | .attempt _ _ => (.ok none : Local.Outcome)
  | .exchange (.get _) => (.error "ERR broken" : Remote.Reply)
  | .exchange _ => (.int 1 : Remote.Reply)
  | .nextCommand => ((0, .load .renew) : Ticket × Remote.Command)

def work : Admission.Routine (Except AdmissionError Unit) := .done (.ok ())

/-- What the section does once its owner is made up. -/
def body (u : Ulid) : Code Ending :=
  match sectionCode wiring ⟨"k"⟩ .zero work with
  | .call (.deed .newOwner) k => k u
  | p => p

def entered : Yard :=
  ⟨world, [⟨"k", ⟨.call (I := operations) (.deed .newOwner) body, []⟩, []⟩], []⟩

def asking : Yard := ⟨world, [⟨"k", ⟨body owner, []⟩, [⟨.deed .newOwner, owner⟩]⟩], []⟩

def ended : Yard := Nat.repeat (Yard.turn answers) 9 asking

def dog : Service := .watchdog 0 (.lock "k") owner lease

/-- What the watchdog does after its pause. -/
def renewing : Code Ending :=
  match dog.round with
  | .call (.wait (.sleep _)) k => k ()
  | p => p

def last : Yard := { ended with keepers := [⟨some 0, ⟨renewing, []⟩, false⟩] }

theorem reach_last : Yard.Reach 0 world last := by
  have h₁ : Yard.Reach 0 world entered :=
    Yard.Reach.start.step (.enter _ wiring ⟨"k"⟩ .zero work rfl (.done _))
  have hnew : ¬ entered.Old owner := by
    rintro ⟨s, hs, e, he, -⟩
    cases List.mem_singleton.1 hs
    cases he
  have h₂ : Yard.Reach 0 world asking :=
    h₁.step (.work entered 0 ⟨"k", ⟨_, _⟩, []⟩ rfl
      (.owner hnew (.call (I := operations) (.deed .newOwner) body [] owner)))
  have h₃ : Yard.Reach 0 world ended := h₂.turns answers 9
  have h₄ : Yard.Reach 0 world { ended with keepers := [⟨some 0, ⟨dog.round, []⟩, false⟩] } :=
    h₃.step (.again ended 0 ⟨some 0, ⟨.done (.again dog), []⟩, false⟩ dog [] rfl rfl rfl)
  exact h₄.step (.keep _ 0 ⟨some 0, ⟨dog.round, []⟩, false⟩ rfl rfl
    (.wait (.call (I := operations) (.wait (.sleep _)) _ [] ())))

theorem table_empty (lock : Name) (u : Ulid) : world.tag? 0 lock u = none := rfl

end Sample

theorem sample_watched : 0 < Sample.world.clients.length ∧
    (∀ lock u, Sample.world.tag? 0 lock u = none) ∧ Yard.Reach 0 Sample.world Sample.last ∧
    Watched 0 Sample.last :=
  ⟨by decide, Sample.table_empty, Sample.reach_last,
    Yard.reach_watched (by decide) Sample.table_empty Sample.reach_last⟩

/-- A section can end with its watchdog in the table, about to renew: the lease does not run out. -/
theorem watchdog_outlives : ∃ y, Yard.Reach 0 Sample.world y ∧ ∃ s ∈ y.sections, s.HasEnded ∧
    s.IsOf Sample.owner ∧
    (⟨.wait (.exchange (.get (.lock s.key))), (.error "ERR broken" : Remote.Reply)⟩ ∈ s.trace) ∧
    (y.world.tag? 0 (.lock s.key) Sample.owner).isSome ∧
    y.Sends (.run .renew [.lock s.key] [.owner Sample.owner, .number 9000]) := by
  refine ⟨Sample.last, Sample.reach_last, _, List.mem_singleton_self _, rfl, ?_, ?_, rfl, ?_⟩
  · exact ⟨⟨.deed .newOwner, Sample.owner⟩, List.mem_cons_self .., rfl⟩
  · exact List.mem_of_getElem? (i := 5) rfl
  · exact .inr ⟨⟨some 0, ⟨Sample.renewing, []⟩, false⟩, List.mem_singleton_self _, rfl, rfl⟩

end Turnstile.Sim
