import Mathlib.Data.List.Chain
import Mathlib.Logic.Function.Basic
import Turnstile.Proofs.Remote.Errands
import Turnstile.Proofs.Remote.Expiry

/-!
# Permits that are given back

Any number of calls that take permits at the coordination server and give them back, all through
one client. A `Step` of a `Lobby` is a call that begins, one node of one call, or whatever others
do who leave the client's table alone. The server may answer anything, and a call that never moves
again is one that was dropped.

The client has a stack of permits for each key. `Kept` is what every step keeps: the stacks are
those that the history tells of, and each call is as far as its own entries say. `Accounts` is what
follows for the stacks, for a call that takes permits and for one that gives some back.
-/

namespace Turnstile.Sim

open Strand (Leads)

/-! ### The table of a client -/

/-- Permits that were granted, and how long their pool lives, latest first. -/
abbrev Stack := List (UInt32 × Duration)

/-- What a table has for a key with this stack: no entry if it is empty. -/
def Stack.cell? (s : Stack) : Option Stack := if s.isEmpty then none else some s

namespace World

/-- What the table of client `n` has for a key. -/
def held? (w : World) (n : Nat) (key : String) : Option Stack :=
  w.clients[n]?.bind fun c => c.outstanding.get? key

/-- Client `n` is there, and these are its stacks. -/
structure Holds (w : World) (n : Nat) (S : String → Stack) : Prop where
  client : n < w.clients.length
  held : ∀ key, w.held? n key = (S key).cell?

variable {w w' : World} {n : Nat} {S : String → Stack} {key : String}

theorem held?_of_clients (h : w'.clients = w.clients) : w'.held? n key = w.held? n key := by
  rw [held?, h, held?]

theorem held?_modifyClient (hn : n < w.clients.length) (f : Client → Client) :
    (w.modifyClient n f).held? n key = (f w.clients[n]).outstanding.get? key := by
  simp [held?, modifyClient, hn]

theorem Holds.get? (h : w.Holds n S) (hn : n < w.clients.length) (key : String) :
    w.clients[n].outstanding.get? key = (S key).cell? := by
  simpa [held?, hn] using h.held key

theorem Holds.remember (h : w.Holds n S) (key : String) (permits : UInt32) (lifetime : Duration) :
    (w.remember n key permits lifetime).Holds n
      (Function.update S key ((permits, lifetime) :: S key)) := by
  refine ⟨by simpa [World.remember, modifyClient] using h.client, fun k => ?_⟩
  rw [World.remember, held?_modifyClient h.client, Table.get?_insert, h.get?, h.get?,
    Function.update_apply]
  split
  · cases S key <;> rfl
  · rfl

/-- An entry goes with its last element. -/
theorem Holds.takeLatest (h : w.Holds n S) (key : String) :
    (w.takeLatest n key).2 = (S key).head? ∧
      (w.takeLatest n key).1.Holds n (Function.update S key (S key).tail) := by
  have hkey := h.held key
  unfold held? at hkey
  unfold World.takeLatest
  rw [hkey]
  rcases hS : S key with _ | ⟨latest, rest⟩
  · have hsame : Function.update S key [] = S := by rw [← hS, Function.update_eq_self]
    rw [List.tail_nil, hsame]
    exact ⟨rfl, h⟩
  · refine ⟨rfl, by simpa [Stack.cell?, modifyClient] using h.client, fun k => ?_⟩
    show ((w.modifyClient n _).held? n k) = _
    rw [held?_modifyClient h.client, Function.update_apply]
    dsimp only [List.tail_cons]
    cases rest with
    | nil =>
      rw [if_pos List.isEmpty_nil, Table.get?_erase, h.get?]
      split <;> rfl
    | cons x rest =>
      rw [if_neg (by simp), Table.get?_insert, h.get?]
      split <;> rfl

end World

/-! ### Entries and the stacks that they tell of -/

/-- What a call asked and was answered. -/
structure Entry where
  caller : Nat
  errand : Errand
  asked : Asked operations

/-- What an entry does to the stack of a key, if what a call asked for comes on it with an entry in
`puts`. -/
def Entry.next (puts : Asked operations → Bool) (key : String) (s : Stack) (e : Entry) : Stack :=
  match e.errand with
  | .take k plan demand =>
    if k = key ∧ puts e.asked then (demand.permits, plan.lifetime) :: s else s
  | .give k => if k = key ∧ isPop e.asked then s.tail else s

/-- The stack of a key that a history tells of. -/
def stackOf (puts : Asked operations → Bool) (h : List Entry) (key : String) : Stack :=
  h.foldl (Entry.next puts key) []

/-- What the call with the number `i` asked and was answered. -/
def traceOf (i : Nat) (h : List Entry) : List (Asked operations) :=
  (h.filter fun e => e.caller = i).map Entry.asked

/-- Whoever is granted permits is the next to do something, as tasks run from one wait to the
next. -/
def Undisturbed (h : List Entry) : Prop :=
  h.IsChain fun e e' => isGrant e.asked → e'.caller = e.caller

section

variable {puts : Asked operations → Bool} {h h' : List Entry} {e e' : Entry} {key : String}
  {i : Nat}

theorem Undisturbed.caller_eq (hu : Undisturbed (h ++ [e'])) (he : h.getLast? = some e)
    (hg : isGrant e.asked = true) : e'.caller = e.caller :=
  (List.isChain_append.1 hu).2.2 e he e' rfl hg

theorem stackOf_concat : stackOf puts (h ++ [e]) key = e.next puts key (stackOf puts h key) :=
  List.foldl_concat ..

theorem traceOf_append : traceOf i (h ++ h') = traceOf i h ++ traceOf i h' := by
  simp [traceOf]

theorem traceOf_caller_concat : traceOf e.caller (h ++ [e]) = traceOf e.caller h ++ [e.asked] := by
  simp [traceOf]

theorem traceOf_self (errand : Errand) (t : List (Asked operations)) :
    traceOf i (t.map (Entry.mk i errand)) = t := by
  rw [traceOf, List.filter_eq_self.2 (by simp), List.map_map]
  exact List.map_id t

theorem traceOf_of_ne {j : Nat} (hji : j ≠ i) (errand : Errand) (t : List (Asked operations)) :
    traceOf j (t.map (Entry.mk i errand)) = [] := by
  simp [traceOf, hji.symm]

end

/-! ### Calls through one client -/

structure Caller where
  errand : Errand
  strand : Strand operations Pledge Ending

structure Lobby where
  world : World
  callers : List Caller
  /-- All that they asked and were answered, oldest first. -/
  history : List Entry

namespace Lobby

/-- The smallest step of calls through client `n`. -/
inductive Step (n : Nat) : Lobby → Lobby → Prop
  | enter (y : Lobby) (e : Errand) :
    Step n y { y with callers := y.callers ++ [⟨e, ⟨e.code n, []⟩⟩] }
  | work (y : Lobby) (i : Nat) (c : Caller) {t : List (Asked operations)} {w : World}
    {orders : Orders} {s : Strand operations Pledge Ending} :
    y.callers[i]? = some c → Node (fun _ => False) y.world c.strand t w orders s →
    Step n y
      { world := w
        callers := y.callers.set i { c with strand := s }
        history := y.history ++ t.map (Entry.mk i c.errand) }
  /-- Whatever others do who leave the table of this client alone. -/
  | stir (y : Lobby) (w : World) : (n < y.world.clients.length → n < w.clients.length) →
    (∀ key, w.held? n key = y.world.held? n key) → Step n y { y with world := w }

theorem Step.of_clients {n : Nat} (y : Lobby) {w : World} (h : w.clients = y.world.clients) :
    Step n y { y with world := w } :=
  .stir y w (fun hn => h ▸ hn) fun _ => World.held?_of_clients h

/-- What a call that waits does to the world, at first and whenever it looks again, is a step. -/
theorem Step.begins {n : Nat} (y : Lobby) (now ticket : Nat) (op : Wait) :
    Step n y { y with world := (y.world.begin now ticket op).1 } :=
  .of_clients y (World.clients_begin now ticket op)

theorem Step.resumes {n : Nat} (y : Lobby) (now : Nat) (op : Wait) (p : op.Pending) :
    Step n y { y with world := (y.world.resume now op p).1 } :=
  .of_clients y (World.clients_resume now op p)

/-- How far the call with the number `i` has come. -/
def phase (y : Lobby) (i : Nat) (e : Errand) : Phase :=
  (traceOf i y.history).foldl Phase.next e.start

/-- The lobbies that can come about in the world `w`. -/
inductive Reach (n : Nat) (w : World) : Lobby → Prop
  | start : Reach n w ⟨w, [], []⟩
  | step {y y' : Lobby} : Reach n w y → Step n y y' → Reach n w y'

end Lobby

/-- Who looked at a stack was answered with what was on its top. -/
def Entry.Fits (S : String → Stack) : Entry → Prop
  | ⟨_, .give key, ⟨.deed (.takeLatest _ _), (latest : Option (UInt32 × Duration))⟩⟩ =>
    latest = (S key).head?
  | _ => True

section

variable {n i : Nat} {e : Errand} {φ : Phase} {S : String → Stack} {w : World}

theorem forall_splits_concat {α : Type} {P : List α → α → Prop} {l : List α} {x : α}
    (hl : ∀ h e h', l = h ++ e :: h' → P h e) (hx : P l x) :
    ∀ h e h', l ++ [x] = h ++ e :: h' → P h e := by
  intro h e h' he
  rcases List.eq_nil_or_concat h' with rfl | ⟨h', z, rfl⟩
  · obtain ⟨rfl, hex⟩ := List.append_inj' he rfl
    cases hex
    exact hx
  · rw [List.concat_eq_append, ← List.cons_append, ← List.append_assoc] at he
    exact hl h e h' (List.append_inj' he rfl).1

/-- What a call waits for does nothing to the stacks. -/
theorem Errand.Asks.next_wait {op : Wait} (h : e.Asks n φ (.wait op)) (a : op.Answer) :
    (∀ key s, Entry.next isNote key s ⟨i, e, ⟨.wait op, a⟩⟩ = s) ∧
      Entry.Fits S ⟨i, e, ⟨.wait op, a⟩⟩ := by
  cases h <;> simp [Entry.next, Entry.Fits, isNote, isPop]

theorem Errand.Asks.fits_granted {op : Op} (h : e.Asks n .granted op) (a : operations.Answer op) :
    Entry.Fits S ⟨i, e, ⟨op, a⟩⟩ := by
  cases h
  trivial

theorem Errand.not_asks_newOwner : ¬ e.Asks n φ (.deed .newOwner) := nofun

/-- What a call does at once is what the history tells of it. -/
theorem Errand.Asks.holds {d : Deed} (h : e.Asks n φ (.deed d)) (hw : w.Holds n S) (now : Nat) :
    (w.carryOut now d).1.Holds n (fun key =>
        Entry.next isNote key (S key) ⟨i, e, ⟨.deed d, (w.carryOut now d).2.2⟩⟩) ∧
      Entry.Fits S ⟨i, e, ⟨.deed d, (w.carryOut now d).2.2⟩⟩ := by
  cases h with
  | clock => exact ⟨by simpa [Entry.next, isNote, World.carryOut] using hw, trivial⟩
  | @note key plan demand =>
    have hnext : (fun k => Entry.next isNote k (S k) ⟨i, .take key plan demand,
        ⟨.deed (.remember n key demand.permits plan.lifetime), ()⟩⟩) =
          Function.update S key ((demand.permits, plan.lifetime) :: S key) := by
      funext k
      simp only [Entry.next, isNote, Function.update_apply, eq_comm (a := k)]
      split <;> simp_all
    exact ⟨hnext ▸ hw.remember key _ _, trivial⟩
  | @pop key =>
    obtain ⟨hlatest, hholds⟩ := hw.takeLatest key
    have hnext : (fun k => Entry.next isNote k (S k) ⟨i, .give key,
        ⟨.deed (.takeLatest n key), (w.takeLatest n key).2⟩⟩) =
          Function.update S key (S key).tail := by
      funext k
      simp only [Entry.next, isPop, Function.update_apply, eq_comm (a := k)]
      split <;> simp_all
    exact ⟨hnext ▸ hholds, hlatest⟩

end

/-! ### What every step keeps -/

/-- The stacks are those that the history tells of, and each call is as far as its entries say. -/
structure Kept (n : Nat) (y : Lobby) : Prop where
  holds : y.world.Holds n (stackOf isNote y.history)
  leads : ∀ i c, y.callers[i]? = some c →
    Leads Pledge.code ⟨c.errand.code n, []⟩ (traceOf i y.history) c.strand
  known : ∀ e ∈ y.history, ∃ c, y.callers[e.caller]? = some c ∧ c.errand = e.errand
  fits : ∀ h e h', y.history = h ++ e :: h' → e.Fits (stackOf isNote h)

namespace Kept

variable {n i : Nat} {w : World} {y y' : Lobby} {c : Caller}

theorem start (hn : n < w.clients.length) (hw : ∀ key, w.held? n key = none) :
    Kept n ⟨w, [], []⟩ where
  holds := ⟨hn, hw⟩
  leads i c hi := by simp at hi
  known e he := by simp at he
  fits h e h' he := by simp at he

theorem course (h : Kept n y) (hi : y.callers[i]? = some c) :
    c.errand.Course n (y.phase i c.errand) (traceOf i y.history) :=
  Errand.course_of_leads (h.leads i c hi)

theorem asks (h : Kept n y) (hi : y.callers[i]? = some c) {op : Op}
    (hop : c.strand.call? = some op) : c.errand.Asks n (y.phase i c.errand) op :=
  (c.errand.follows.leads (h.leads i c hi)).ok_of_call hop

theorem ends (h : Kept n y) (hi : y.callers[i]? = some c) {a : Ending}
    (ha : c.strand.result? = some a) : c.errand.Ends (y.phase i c.errand) a :=
  (c.errand.follows.leads (h.leads i c hi)).end_of_result ha

theorem errand_eq (h : Kept n y) {e : Entry} (he : e ∈ y.history)
    (hi : y.callers[e.caller]? = some c) : e.errand = c.errand := by
  obtain ⟨x, hx, hxe⟩ := h.known e he
  cases hx.symm.trans hi
  exact hxe.symm

/-- Whether a call has permits that are not yet on their stack shows in the last entry, if that is
its own. -/
theorem granted_iff (h : Kept n y) {g : Entry} (hg : y.history.getLast? = some g)
    (hi : y.callers[g.caller]? = some c) :
    y.phase g.caller c.errand = .granted ↔ isGrant g.asked = true := by
  have hcourse := h.course hi
  unfold Lobby.phase at hcourse ⊢
  obtain ⟨h₀, hlast⟩ := List.getLast?_eq_some_iff.1 hg
  rw [hlast, traceOf_caller_concat] at hcourse ⊢
  exact hcourse.granted_iff

/-- A call that has not begun has no entries. -/
theorem traceOf_new (h : Kept n y) : traceOf y.callers.length y.history = [] := by
  unfold traceOf
  rw [List.map_eq_nil_iff, List.filter_eq_nil_iff]
  intro e he hl
  obtain ⟨c, hc, -⟩ := h.known e he
  have hlt := (List.getElem?_eq_some_iff.1 hc).1
  simp at hl
  omega

theorem enter (h : Kept n y) (e : Errand) :
    Kept n { y with callers := y.callers ++ [⟨e, ⟨e.code n, []⟩⟩] } where
  holds := h.holds
  leads i c hi := by
    rcases getElem?_concat_cases hi with hi | ⟨rfl, rfl⟩
    · exact h.leads i c hi
    · dsimp only
      rw [h.traceOf_new]
      exact .here
  known e he := by
    obtain ⟨c, hc, hce⟩ := h.known e he
    exact ⟨c, by rw [List.getElem?_append_left (List.getElem?_eq_some_iff.1 hc).1, hc], hce⟩
  fits := h.fits

/-- One call moves on, with an entry or without. -/
theorem move (h : Kept n y) (hi : y.callers[i]? = some c) {t : List (Asked operations)}
    {s : Strand operations Pledge Ending} (hs : c.strand.Step Pledge.code t s)
    (hw : w.Holds n (stackOf isNote (y.history ++ t.map (Entry.mk i c.errand))))
    (ht : t = [] ∨ ∃ a, t = [a] ∧ Entry.Fits (stackOf isNote y.history) ⟨i, c.errand, a⟩) :
    Kept n ⟨w, y.callers.set i { c with strand := s },
      y.history ++ t.map (Entry.mk i c.errand)⟩ where
  holds := hw
  leads j x hj := by
    rw [traceOf_append]
    rcases getElem?_set_cases hj with ⟨rfl, rfl⟩ | ⟨hji, hj⟩
    · rw [traceOf_self]
      exact (h.leads j c hi).step hs
    · rw [traceOf_of_ne hji, List.append_nil]
      exact h.leads j x hj
  known e he := by
    have hself : (y.callers.set i { c with strand := s })[i]? = some { c with strand := s } := by
      rw [List.getElem?_set_self (List.getElem?_eq_some_iff.1 hi).1]
    rcases List.mem_append.1 he with he | he
    · obtain ⟨x, hx, hxe⟩ := h.known e he
      by_cases hei : e.caller = i
      · obtain rfl : c = x := Option.some.inj (hi.symm.trans (hei ▸ hx))
        exact ⟨{ c with strand := s }, hei ▸ hself, hxe⟩
      · exact ⟨x, by rwa [List.getElem?_set_ne (Ne.symm hei)], hxe⟩
    · obtain ⟨a, -, rfl⟩ := List.mem_map.1 he
      exact ⟨_, hself, rfl⟩
  fits := by
    rcases ht with rfl | ⟨a, rfl, ha⟩
    · simpa using h.fits
    · exact forall_splits_concat h.fits ha

theorem work (h : Kept n y) (hi : y.callers[i]? = some c) {t : List (Asked operations)}
    {orders : Orders} {s : Strand operations Pledge Ending}
    (hnode : Node (fun _ => False) y.world c.strand t w orders s) :
    Kept n ⟨w, y.callers.set i { c with strand := s },
      y.history ++ t.map (Entry.mk i c.errand)⟩ := by
  have hstack {a : Asked operations} : stackOf isNote (y.history ++ [⟨i, c.errand, a⟩]) =
      fun key => Entry.next isNote key (stackOf isNote y.history key) ⟨i, c.errand, a⟩ :=
    funext fun _ => stackOf_concat
  cases hnode with
  | inner hs => exact h.move hi hs (by simpa using h.holds) (.inl rfl)
  | @wait op a _ hs =>
    obtain ⟨hnext, hfits⟩ := (h.asks hi (call?_of_step_call hs)).next_wait (i := i) a
    refine h.move hi hs ?_ (.inr ⟨_, rfl, hfits⟩)
    show y.world.Holds n (stackOf isNote (y.history ++ [_]))
    simpa only [hstack, hnext] using h.holds
  | owner _ hs => exact (Errand.not_asks_newOwner (h.asks hi (call?_of_step_call hs))).elim
  | @deed now d _ _ hs =>
    obtain ⟨hholds, hfits⟩ := (h.asks hi (call?_of_step_call hs)).holds (i := i) h.holds now
    refine h.move hi hs ?_ (.inr ⟨_, rfl, hfits⟩)
    rw [← hstack] at hholds
    exact hholds

theorem step (h : Kept n y) (hs : Lobby.Step n y y') : Kept n y' := by
  cases hs with
  | enter e => exact h.enter e
  | work i c hi hnode => exact h.work hi hnode
  | stir w hn hw =>
    exact ⟨⟨hn h.holds.client, fun key => (hw key).trans (h.holds.held key)⟩, h.leads, h.known,
      h.fits⟩

end Kept

theorem Lobby.Reach.kept {n : Nat} {w : World} {y : Lobby} (h : Lobby.Reach n w y)
    (hn : n < w.clients.length) (hw : ∀ key, w.held? n key = none) : Kept n y := by
  induction h with
  | start => exact .start hn hw
  | step _ hs ih => exact ih.step hs

/-! ### The stacks by the answers -/

/-- Permits that are granted and about to be put on their stack. -/
def pending (h : List Entry) : List Entry := h.getLast?.toList.filter fun e => isGrant e.asked

/-- The stacks that the answers tell of are those of the table, but for permits that are about to be
put on theirs. -/
structure Agrees (y : Lobby) : Prop where
  stack : ∀ key, stackOf isGrant y.history key =
    (pending y.history).foldl (Entry.next isGrant key) (stackOf isNote y.history key)
  last : ∀ i c, y.callers[i]? = some c → y.phase i c.errand = .granted →
    ∃ e, y.history.getLast? = some e ∧ e.caller = i
  fits : ∀ h e h', y.history = h ++ e :: h' → e.Fits (stackOf isGrant h)

section

variable {puts puts' : Asked operations → Bool} {h : List Entry} {e e' : Entry} {key : String}
  {s : Stack}

theorem Entry.next_congr (herrand : e.errand = e'.errand) (hputs : puts e.asked = puts' e'.asked)
    (hpop : isPop e.asked = isPop e'.asked) : e.next puts key s = e'.next puts' key s := by
  unfold Entry.next
  rw [herrand, hputs, hpop]

theorem Entry.next_of_not (hputs : puts e.asked = false) (hpop : isPop e.asked = false) :
    e.next puts key s = s := by
  unfold Entry.next
  split <;> simp [hputs, hpop]

theorem pending_concat : pending (h ++ [e]) = [e].filter fun e => isGrant e.asked := by
  simp [pending]

end

theorem Node.asks {old : Ulid → Prop} {w w' : World} {s s' : Strand operations Pledge Ending}
    {t : List (Asked operations)} {orders : Orders} (h : Node old w s t w' orders s') :
    t = [] ∨ ∃ a, t = [a] ∧ s.call? = some a.call := by
  cases h with
  | inner _ => exact .inl rfl
  | wait hs => exact .inr ⟨_, rfl, call?_of_step_call hs⟩
  | owner _ hs => exact .inr ⟨_, rfl, call?_of_step_call hs⟩
  | deed _ hs => exact .inr ⟨_, rfl, call?_of_step_call hs⟩

namespace Agrees

variable {n i : Nat} {w : World} {y : Lobby} {c : Caller} {s : Strand operations Pledge Ending}

/-- No permits are about to be put on their stack if another call is the next to do something. -/
theorem pending_eq_nil (hk : Kept n y) (hi : y.callers[i]? = some c) {a : Asked operations}
    (hu : Undisturbed (y.history ++ [⟨i, c.errand, a⟩])) (hφ : y.phase i c.errand ≠ .granted) :
    pending y.history = [] := by
  refine List.filter_eq_nil_iff.2 fun g hg hgr => hφ ?_
  have hg := Option.mem_toList.1 hg
  obtain rfl := hu.caller_eq hg hgr
  exact (hk.granted_iff hg hi).2 hgr

/-- An entry does to the stacks by the answers what it does to the table, or what the one before
it has done to them already. -/
theorem stack_ask (h : Agrees y) (hk : Kept n y) (hi : y.callers[i]? = some c)
    {a : Asked operations} (ha : c.strand.call? = some a.call)
    (hu : Undisturbed (y.history ++ [⟨i, c.errand, a⟩])) (key : String) :
    stackOf isGrant (y.history ++ [⟨i, c.errand, a⟩]) key =
      (pending (y.history ++ [⟨i, c.errand, a⟩])).foldl (Entry.next isGrant key)
        (stackOf isNote (y.history ++ [⟨i, c.errand, a⟩]) key) := by
  obtain ⟨hgranted, hother⟩ := (hk.asks hi ha).isNote_eq a.answer
  rw [stackOf_concat, stackOf_concat, h.stack, pending_concat, List.filter_singleton]
  by_cases hφ : y.phase i c.errand = .granted
  · -- the last entry is the grant, and this one puts the same permits on the same stack
    obtain ⟨hnote, hgrant, hpop⟩ := hgranted hφ
    obtain ⟨g, hg, rfl⟩ := h.last i c hi hφ
    have hgr := (hk.granted_iff hg hi).1 hφ
    have herrand := hk.errand_eq (List.mem_of_getLast? hg) hi
    have hpending : pending y.history = [g] := by simp [pending, hg, hgr]
    rw [hpending, Entry.next_of_not hgrant hpop, hgrant]
    exact Entry.next_congr herrand (hgr.trans hnote.symm) ((isPop_of_isGrant hgr).trans hpop.symm)
  · have hnote : isNote a = false := hother hφ
    rw [pending_eq_nil hk hi hu hφ]
    by_cases hgrant : isGrant a = true
    · have hsame : Entry.next isNote key (stackOf isNote y.history key) ⟨i, c.errand, a⟩ =
          stackOf isNote y.history key := Entry.next_of_not hnote (isPop_of_isGrant hgrant)
      rw [hsame, hgrant]
      rfl
    · have hgrant := Bool.eq_false_iff.2 hgrant
      rw [hgrant]
      exact Entry.next_congr rfl (hgrant.trans hnote.symm) rfl

theorem fits_ask (h : Agrees y) (hk : Kept n y) (hi : y.callers[i]? = some c)
    {a : Asked operations} (ha : c.strand.call? = some a.call)
    (hu : Undisturbed (y.history ++ [⟨i, c.errand, a⟩]))
    (hfits : Entry.Fits (stackOf isNote y.history) ⟨i, c.errand, a⟩) :
    Entry.Fits (stackOf isGrant y.history) ⟨i, c.errand, a⟩ := by
  have hasks := hk.asks hi ha
  by_cases hφ : y.phase i c.errand = .granted
  · rw [hφ] at hasks
    exact hasks.fits_granted a.answer
  · have hstack : stackOf isGrant y.history = stackOf isNote y.history := by
      funext key
      rw [h.stack, pending_eq_nil hk hi hu hφ]
      rfl
    rwa [hstack]

/-- One call moves on with an entry. -/
theorem ask (h : Agrees y) (hk : Kept n y) (hi : y.callers[i]? = some c) {a : Asked operations}
    (ha : c.strand.call? = some a.call) (hu : Undisturbed (y.history ++ [⟨i, c.errand, a⟩]))
    (hfits : Entry.Fits (stackOf isNote y.history) ⟨i, c.errand, a⟩) :
    Agrees ⟨w, y.callers.set i { c with strand := s }, y.history ++ [⟨i, c.errand, a⟩]⟩ := by
  refine ⟨h.stack_ask hk hi ha hu, fun j x hj hx => ?_,
    forall_splits_concat h.fits (h.fits_ask hk hi ha hu hfits)⟩
  rcases getElem?_set_cases hj with ⟨rfl, rfl⟩ | ⟨hji, hj⟩
  · exact ⟨_, List.getLast?_concat, rfl⟩
  · -- another call that was granted permits would have been the next to do something
    have hnone : traceOf j [⟨i, c.errand, a⟩] = [] := traceOf_of_ne hji c.errand [a]
    unfold Lobby.phase at hx
    rw [traceOf_append, hnone, List.append_nil] at hx
    obtain ⟨g, hg, rfl⟩ := h.last j x hj hx
    exact absurd (hu.caller_eq hg ((hk.granted_iff hg hj).1 hx)).symm hji

end Agrees

theorem Lobby.Reach.agrees {n : Nat} {w : World} {y : Lobby} (h : Lobby.Reach n w y)
    (hn : n < w.clients.length) (hw : ∀ key, w.held? n key = none)
    (hu : Undisturbed y.history) : Agrees y := by
  induction h with
  | start => exact ⟨fun _ => rfl, fun i c hi => by simp at hi, fun h e h' he => by simp at he⟩
  | @step y _ hr hs ih =>
    have hk := hr.kept hn hw
    have hk' := hk.step hs
    cases hs with
    | enter e =>
      refine ⟨(ih hu).stack, fun i c hi hφ => ?_, (ih hu).fits⟩
      rcases getElem?_concat_cases hi with hi | ⟨rfl, rfl⟩
      · exact (ih hu).last i c hi hφ
      · unfold Lobby.phase at hφ
        dsimp only at hφ
        rw [hk.traceOf_new] at hφ
        cases e <;> cases hφ
    | @work i c t _ _ _ hi hnode =>
      rcases hnode.asks with rfl | ⟨a, rfl, ha⟩
      · rw [List.map_nil, List.append_nil] at hu ⊢
        refine ⟨(ih hu).stack, fun j x hj hφ => ?_, (ih hu).fits⟩
        rcases getElem?_set_cases hj with ⟨rfl, rfl⟩ | ⟨-, hj⟩
        · exact (ih hu).last j c hi hφ
        · exact (ih hu).last j x hj hφ
      · exact (ih (List.isChain_append.1 hu).1).ask hk hi ha hu (hk'.fits y.history _ [] rfl)
    | stir _ _ _ => exact ⟨(ih hu).stack, (ih hu).last, (ih hu).fits⟩

/-! ### What follows -/

section

variable {puts : Asked operations → Bool} {h : List Entry} {key : String} {i : Nat}

/-- Entries that do nothing to a stack can be left out. -/
theorem stackOf_filter {p : Entry → Bool}
    (hp : ∀ e ∈ h, p e = false → ∀ s, Entry.next puts key s e = s) :
    stackOf puts (h.filter p) key = stackOf puts h key := by
  unfold stackOf
  rw [List.foldl_filter]
  refine List.foldl_ext _ _ _ fun s e he => ?_
  split
  · rfl
  · rename_i hpe
    exact (hp e he (Bool.eq_false_iff.2 hpe) s).symm

theorem splits_of_traceOf {a : Asked operations} {t : List (Asked operations)}
    (ht : traceOf i h = a :: t) : ∃ h₁ e h₂, h = h₁ ++ e :: h₂ ∧ e.caller = i ∧ e.asked = a ∧
      traceOf i h₁ = [] ∧ traceOf i h₂ = t := by
  obtain ⟨e, l, hl, ha, ht⟩ := List.map_eq_cons_iff.1 ht
  obtain ⟨h₁, h₂, rfl, hnone, he, rfl⟩ := List.filter_eq_cons_iff.1 hl
  refine ⟨h₁, e, h₂, rfl, of_decide_eq_true he, ha, ?_, ht⟩
  rw [traceOf, List.map_eq_nil_iff, List.filter_eq_nil_iff]
  exact hnone

end

/-- A call that takes permits: if they are granted it puts them on their stack next, and then it
ends; else it leaves every stack as it is, however it ends. -/
structure Taking (n : Nat) (y : Lobby) (i : Nat) (key : String) (plan : PoolPlan)
    (demand : PoolDemand) (s : Strand operations Pledge Ending) (φ : Phase) : Prop where
  course : (Errand.take key plan demand).Course n φ (traceOf i y.history)
  ends : ∀ a, s.result? = some a → (Errand.take key plan demand).Ends φ a
  /-- The stacks are those that there would be without this call. -/
  denied : φ = .polling → ∀ k,
    stackOf isNote (y.history.filter fun e => e.caller ≠ i) k = stackOf isNote y.history k

/-- A call that gives permits back: what it takes off its stack was on the top of it, and it sends
that or, if there was nothing, does not send anything. -/
inductive Giving (n : Nat) (y : Lobby) (i : Nat) (key : String)
    (s : Strand operations Pledge Ending) : Prop
  | calling : traceOf i y.history = [] → s.result? = none → Giving n y i key s
  | returning {h h' : List Entry} {latest : Option (UInt32 × Duration)} :
    y.history = h ++ ⟨i, .give key, ⟨.deed (.takeLatest n key), latest⟩⟩ :: h' →
    traceOf i h = [] → latest = (stackOf isNote h key).head? →
    (∀ e ∈ traceOf i h', (Errand.give key).Asks n (.returning latest) e.call) →
    (∀ a, s.result? = some a → Errand.Gave n key latest (traceOf i h') a) → Giving n y i key s

/-- What holds of all calls through client `n`, in any order, however they are answered. -/
structure Accounts (n : Nat) (y : Lobby) : Prop where
  /-- A stack has what was put on it and not taken off, and an empty one has no entry. -/
  table : ∀ key, y.world.held? n key = (stackOf isNote y.history key).cell?
  /-- If tasks run from one wait to the next, that is what was granted and not given back, unless
  permits were granted just now. -/
  answered : Undisturbed y.history → pending y.history = [] →
    ∀ key, y.world.held? n key = (stackOf isGrant y.history key).cell?
  /-- What a call takes off its stack is then what was granted last and not given back. -/
  latest : Undisturbed y.history →
    ∀ h e h', y.history = h ++ e :: h' → e.Fits (stackOf isGrant h)
  takes : ∀ i key plan demand s, y.callers[i]? = some ⟨.take key plan demand, s⟩ →
    ∃ φ, Taking n y i key plan demand s φ
  gives : ∀ i key s, y.callers[i]? = some ⟨.give key, s⟩ → Giving n y i key s

namespace Kept

variable {n i : Nat} {y : Lobby} {key : String} {plan : PoolPlan} {demand : PoolDemand}
  {s : Strand operations Pledge Ending}

theorem taking (h : Kept n y) (hi : y.callers[i]? = some ⟨.take key plan demand, s⟩) :
    Taking n y i key plan demand s (y.phase i (.take key plan demand)) where
  course := h.course hi
  ends a ha := h.ends hi ha
  denied hφ k := by
    have hcourse := h.course hi
    dsimp only at hcourse
    rw [hφ] at hcourse
    refine stackOf_filter fun e he hei s => ?_
    have hmem : e.asked ∈ traceOf i y.history :=
      List.mem_map_of_mem (List.mem_filter.2 ⟨he, by simpa using hei⟩)
    cases hcourse with
    | polling ht =>
      obtain ⟨hnote, hpop⟩ := (ht _ hmem).asks.quiet e.asked.answer
      exact Entry.next_of_not hnote hpop

theorem giving (h : Kept n y) (hi : y.callers[i]? = some ⟨.give key, s⟩) :
    Giving n y i key s := by
  have hends (a : Ending) (ha : s.result? = some a) :=
    Errand.give_yields.of_leads (h.leads i _ hi) ha
  have hcourse := h.course hi
  dsimp only at hcourse
  generalize y.phase i (.give key) = φ at hcourse
  generalize ht : traceOf i y.history = t at hcourse hends
  cases hcourse with
  | calling =>
    refine .calling ht (Option.eq_none_iff_forall_ne_some.2 fun a ha => ?_)
    obtain ⟨latest, u, hu, -⟩ := hends a ha
    cases hu
  | @returning _ latest t hasks =>
    obtain ⟨h₁, ⟨i, errand, a⟩, h₂, hsplit, rfl, rfl, hnone, rfl⟩ := splits_of_traceOf ht
    obtain rfl : errand = .give key :=
      h.errand_eq (hsplit ▸ List.mem_append_right _ (.head _)) hi
    refine .returning hsplit hnone (h.fits _ _ _ hsplit) hasks fun a ha => ?_
    obtain ⟨latest', u, hu, hgave⟩ := hends a ha
    cases hu
    exact hgave

end Kept

/-- In every run of calls through a client whose table is empty at first, the stacks are those of
the permits that were granted and not given back. -/
theorem Lobby.reach_accounts {n : Nat} {w : World} {y : Lobby} (hn : n < w.clients.length)
    (hw : ∀ key, w.held? n key = none) (h : Lobby.Reach n w y) : Accounts n y where
  table := (h.kept hn hw).holds.held
  answered hu hpending key := by
    have hstack := (h.agrees hn hw hu).stack key
    rw [hpending] at hstack
    rw [hstack]
    exact (h.kept hn hw).holds.held key
  latest hu := (h.agrees hn hw hu).fits
  takes _ _ _ _ _ hi := ⟨_, (h.kept hn hw).taking hi⟩
  gives _ _ _ hi := (h.kept hn hw).giving hi

/-! ### A call that takes permits and one that gives them back -/

/-- One node of a call. -/
def Lobby.turn (f : (op : Wait) → op.Answer) (i : Nat) (y : Lobby) : Lobby :=
  match y.callers[i]? with
  | none => y
  | some c =>
    match node? f y.world c.strand with
    | none => y
    | some (t, w, _, s) =>
      { world := w
        callers := y.callers.set i { c with strand := s }
        history := y.history ++ t.map (Entry.mk i c.errand) }

theorem Lobby.Reach.turn {n : Nat} {w : World} {y : Lobby} (h : Lobby.Reach n w y)
    (f : (op : Wait) → op.Answer) (i : Nat) : Lobby.Reach n w (y.turn f i) := by
  unfold Lobby.turn
  split
  · exact h
  · rename_i c hc
    split
    · exact h
    · rename_i t w orders s hn
      exact h.step (.work y i c hc (node_of_node? hn))

theorem Lobby.Reach.turns {n : Nat} {w : World} {y : Lobby} (h : Lobby.Reach n w y)
    (f : (op : Wait) → op.Answer) (i m : Nat) :
    Lobby.Reach n w (Nat.repeat (Lobby.turn f i) m y) := by
  induction m with
  | zero => exact h
  | succ m ih => exact ih.turn f i

namespace Sample

def loan : Errand := .take "k" ⟨4, .ofMillis 60000⟩ ⟨2, .zero⟩

def comer (e : Errand) : Caller := ⟨e, ⟨e.code 0, []⟩⟩

/-- Two permits are granted. -/
def lent : Lobby := Nat.repeat (Lobby.turn answers 0) 3 ⟨world, [comer loan], []⟩

/-- They are given back. -/
def returned : Lobby :=
  Nat.repeat (Lobby.turn answers 1) 2 { lent with callers := lent.callers ++ [comer (.give "k")] }

theorem reach_returned : Lobby.Reach 0 world returned :=
  (((Lobby.Reach.start.step (.enter _ loan)).turns answers 0 3).step
    (.enter lent (.give "k"))).turns answers 1 2

end Sample

theorem Lobby.reach_accounts_returned : 0 < Sample.world.clients.length ∧
    (∀ key, Sample.world.held? 0 key = none) ∧ Lobby.Reach 0 Sample.world Sample.returned ∧
    Accounts 0 Sample.returned ∧ Undisturbed Sample.returned.history ∧
    pending Sample.returned.history = [] ∧
    stackOf isNote Sample.lent.history "k" = [(2, .ofMillis 60000)] ∧
    Sample.returned.callers.map (fun c => c.strand.result?) =
      [some (Errand.verdict (.ok true)), some (Errand.settled (.ok ()))] ∧
    (Sample.returned.history.map fun e => e.asked.call).getLast? =
      some (.wait (.exchange (giveCommand "k" 2 (.ofMillis 60000)))) := by
  refine ⟨by decide, fun _ => rfl, Sample.reach_returned,
    Lobby.reach_accounts (by decide) (fun _ => rfl) Sample.reach_returned, ?_, rfl, rfl, rfl, rfl⟩
  unfold Undisturbed
  decide

end Turnstile.Sim
