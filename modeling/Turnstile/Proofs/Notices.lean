import Mathlib.Data.List.Infix
import Turnstile.Notice

/-!
# What subscriptions hear

`Follows` is the invariant of one subscription over a run of the hub: its channel holds the events
that were sent to it (`sentTo`), and it has as many of them behind it as it has received and missed
(`progress`). So each read is answered by `next`, whatever else was done in the run
(`heard_append`), and what is received are events of the restaurant at the places that the answers
count up to (`Fits`).
-/

namespace Turnstile

variable {r r' : UInt64} {n p i : Nat} {e : Event} {es : List Event}

/-! ## Channels -/

namespace Hub

variable {h : Hub} {c : Channel}

/-- The channel `n` holds `c`, and while it is open it is the channel of `r` and of nobody else. -/
structure Carries (h : Hub) (r : UInt64) (n : Nat) (c : Channel) : Prop where
  channel : h.channels[n]? = some c
  current : ∀ r', h.current.get? r' = some n ↔ r' = r ∧ c.isOpen = true

/-- The channel of each restaurant is there and belongs to it alone. -/
def Tidy (h : Hub) : Prop := ∀ r n, h.current.get? r = some n → ∃ c, h.Carries r n c

theorem tidy_fresh : fresh.Tidy := by
  intro r n hn
  cases hn

theorem Carries.ensure (hc : h.Carries r n c) (r' : UInt64) : (h.ensure r').1.Carries r n c := by
  unfold Hub.ensure
  split
  · exact hc
  · rename_i hnone
    have hn : n < h.channels.length := (List.getElem?_eq_some_iff.1 hc.channel).1
    refine ⟨by simpa [List.getElem?_append_left hn] using hc.channel, fun r'' => ?_⟩
    rw [Table.get?_insert]
    split
    · rename_i hr
      have hcur := hc.current r''
      rw [hr, hnone] at hcur
      simp [hr, ← hcur, hn.ne']
    · exact hc.current r''

theorem Carries.subscribe (hc : h.Carries r n c) (r' : UInt64) :
    (h.subscribe r').1.Carries r n c :=
  hc.ensure r'

theorem Carries.send (hc : h.Carries r n c) (e : Event) :
    (h.send e).Carries r n
      (if e.restaurant = r ∧ c.isOpen = true then { c with sent := c.sent ++ [e] } else c) := by
  have hcur := hc.current e.restaurant
  unfold Hub.send
  split
  · rename_i m hm
    rw [hm] at hcur
    by_cases hmn : m = n
    · subst hmn
      rw [if_pos (hcur.1 rfl)]
      exact ⟨by simp [hc.channel], hc.current⟩
    · rw [if_neg fun hr => hmn (Option.some.inj (hcur.2 hr))]
      exact ⟨by simp [hmn, hc.channel], hc.current⟩
  · rename_i hm
    rw [hm] at hcur
    rw [if_neg fun hr => nomatch hcur.2 hr]
    exact hc

/-- To close a closed channel changes nothing. -/
theorem close_eq_self (hc : r' = r → c.isOpen = false) :
    (if r' = r then { c with isOpen := false } else c) = c := by
  split
  · rename_i hr
    rw [← hc hr]
  · rfl

theorem Carries.remove (hc : h.Carries r n c) (r' : UInt64) :
    (h.remove r').Carries r n (if r' = r then { c with isOpen := false } else c) := by
  have hcur := hc.current r'
  unfold Hub.remove
  split
  · rename_i m hm
    rw [hm] at hcur
    refine ⟨?_, fun r'' => ?_⟩
    · by_cases hmn : m = n
      · subst hmn
        simp [(hcur.1 rfl).1, hc.channel]
      · rw [close_eq_self (by grind)]
        simp [hmn, hc.channel]
    · have hcur' := hc.current r''
      rw [Table.get?_erase]
      grind
  · rename_i hm
    rw [hm] at hcur
    rwa [close_eq_self (by grind)]

theorem Tidy.carries_ensure (ht : h.Tidy) (r : UInt64) :
    ∃ sent, (h.ensure r).1.Carries r (h.ensure r).2 ⟨sent, true⟩ := by
  unfold Hub.ensure
  split
  · rename_i n hn
    obtain ⟨⟨sent, isOpen⟩, hc⟩ := ht r n hn
    obtain ⟨-, rfl⟩ := (hc.current r).1 hn
    exact ⟨sent, hc⟩
  · refine ⟨[], by simp, fun r' => ?_⟩
    rw [Table.get?_insert]
    split
    · rename_i hr
      simp [hr]
    · rename_i hr
      -- no channel had this place before
      have hnew : h.current.get? r' ≠ some h.channels.length := by
        intro hn
        obtain ⟨c, hc⟩ := ht r' _ hn
        simpa using hc.channel
      simp [hr, hnew]

theorem Tidy.ensure (ht : h.Tidy) (r : UInt64) : (h.ensure r).1.Tidy := by
  intro r' n hn
  by_cases hold : h.current.get? r' = some n
  · obtain ⟨c, hc⟩ := ht r' n hold
    exact ⟨c, hc.ensure r⟩
  · obtain ⟨sent, hc⟩ := ht.carries_ensure r
    obtain ⟨rfl, rfl⟩ : r' = r ∧ n = (h.ensure r).2 := by
      unfold Hub.ensure at hn ⊢
      split at hn
      · exact absurd hn hold
      · rw [Table.get?_insert] at hn
        grind
    exact ⟨_, hc⟩

theorem Tidy.subscribe (ht : h.Tidy) (r : UInt64) :
    (h.subscribe r).1.Tidy ∧ ∃ n sent, (h.subscribe r).1.Carries r n ⟨sent, true⟩ ∧
      (h.subscribe r).2 = ⟨n, sent.length⟩ := by
  obtain ⟨sent, hc⟩ := ht.carries_ensure r
  refine ⟨ht.ensure r, (h.ensure r).2, sent, hc, ?_⟩
  simp [Hub.subscribe, hc.channel]

theorem Tidy.send (ht : h.Tidy) (e : Event) : (h.send e).Tidy := by
  intro r n hn
  have hcurrent : (h.send e).current = h.current := by
    unfold Hub.send
    split <;> rfl
  rw [hcurrent] at hn
  obtain ⟨c, hc⟩ := ht r n hn
  exact ⟨_, hc.send e⟩

theorem Tidy.remove (ht : h.Tidy) (r' : UInt64) : (h.remove r').Tidy := by
  intro r n hn
  have hold : h.current.get? r = some n := by
    unfold Hub.remove at hn
    split at hn
    · rw [Table.get?_erase] at hn
      grind
    · exact hn
  obtain ⟨c, hc⟩ := ht r n hold
  exact ⟨_, hc.remove r'⟩

end Hub

/-! ## What is heard -/

namespace Notice

/-- What a subscription reads next when it has `p` of the events behind it. -/
def next (es : List Event) (isOpen : Bool) (p : Nat) : Receipt :=
  if p + kept < es.length then .lagged (es.length - kept - p)
  else match es[p]? with
    | some e => .event e
    | none => if isOpen then .empty else .closed

def received : List Receipt → List Event
  | [] => []
  | .event e :: hs => e :: received hs
  | .empty :: hs | .closed :: hs | .lagged _ :: hs => received hs

def missed : List Receipt → Nat
  | [] => 0
  | .lagged m :: hs => m + missed hs
  | .event _ :: hs | .empty :: hs | .closed :: hs => missed hs

/-- How many events lie behind a subscription that has heard this. -/
def progress (hs : List Receipt) : Nat := (received hs).length + missed hs

@[simp] theorem received_append (hs hs' : List Receipt) :
    received (hs ++ hs') = received hs ++ received hs' := by
  fun_induction received hs <;> simp_all [received]

@[simp] theorem missed_append (hs hs' : List Receipt) :
    missed (hs ++ hs') = missed hs + missed hs' := by
  fun_induction missed hs <;> simp_all [missed, Nat.add_assoc]

theorem progress_append (hs hs' : List Receipt) :
    progress (hs ++ hs') = progress hs + progress hs' := by
  simp [progress]
  omega

theorem progress_next_le {isOpen : Bool} (hp : p ≤ es.length) :
    p + progress [next es isOpen p] ≤ es.length := by
  unfold next
  split
  · simp [progress, received, missed]
    omega
  · split
    · rename_i h
      have := (List.getElem?_eq_some_iff.1 h).1
      simp [progress, received, missed]
      omega
    · cases isOpen <;> simpa [progress, received, missed] using hp

theorem next_eq_empty_iff {isOpen : Bool} (hp : p ≤ es.length) :
    next es isOpen p = .empty ↔ p = es.length ∧ isOpen = true := by
  grind [next]

theorem next_eq_closed_iff {isOpen : Bool} (hp : p ≤ es.length) :
    next es isOpen p = .closed ↔ p = es.length ∧ isOpen = false := by
  grind [next]

theorem receive_eq {h : Hub} {start : List Event} {isOpen : Bool}
    (hc : h.Carries r n ⟨start ++ es, isOpen⟩) :
    h.receive ⟨n, start.length + p⟩ =
      (⟨n, start.length + (p + progress [next es isOpen p])⟩, next es isOpen p) := by
  have hlen : (start ++ es).length = start.length + es.length := List.length_append
  have hget : (start ++ es)[start.length + p]? = es[p]? := by
    rw [List.getElem?_append_right (Nat.le_add_right _ _), Nat.add_sub_cancel_left]
  unfold Hub.receive next
  simp only [hc.channel, hlen, hget]
  by_cases hlag : p + kept < es.length
  · rw [if_pos hlag, if_pos (by omega)]
    simp [progress, received, missed]
    omega
  · rw [if_neg hlag, if_neg (by omega)]
    cases es[p]? <;> cases isOpen <;> simp [progress, received, missed, Nat.add_assoc]

/-- The events that were received stand, from the place `p` on, where the answers count up to. -/
def Fits (es : List Event) : Nat → List Receipt → Prop
  | _, [] => True
  | p, .event e :: hs => es[p]? = some e ∧ Fits es (p + 1) hs
  | p, .lagged m :: hs => Fits es (p + m) hs
  | p, .empty :: hs | p, .closed :: hs => Fits es p hs

theorem fits_append {hs hs' : List Receipt} :
    Fits es p (hs ++ hs') ↔ Fits es p hs ∧ Fits es (p + progress hs) hs' := by
  fun_induction Fits es p hs <;>
    simp_all [Fits, progress, received, missed, and_assoc, Nat.add_assoc, Nat.add_comm 1,
      Nat.add_left_comm]

theorem fits_next {isOpen : Bool} : Fits es p [next es isOpen p] := by
  unfold next
  split
  · trivial
  · split
    · exact ⟨‹_›, trivial⟩
    · split <;> trivial

theorem Fits.mono {hs : List Receipt} (h : Fits es p hs) (es' : List Event) :
    Fits (es ++ es') p hs := by
  fun_induction Fits es p hs with
  | case1 => trivial
  | case2 p e hs ih =>
    have hp := (List.getElem?_eq_some_iff.1 h.1).1
    exact ⟨by rw [List.getElem?_append_left hp, h.1], ih h.2⟩
  | case3 p m hs ih => exact ih h
  | case4 p hs ih => exact ih h
  | case5 p hs ih => exact ih h

theorem Fits.sublist {hs : List Receipt} (h : Fits es p hs) :
    (received hs).Sublist (es.drop p) := by
  fun_induction Fits es p hs with
  | case1 => exact List.nil_sublist _
  | case2 p e hs ih =>
    obtain ⟨hp, rfl⟩ := List.getElem?_eq_some_iff.1 h.1
    rw [List.drop_eq_getElem_cons hp]
    exact (ih h.2).cons_cons _
  | case3 p m hs ih =>
    refine (ih h).trans ?_
    rw [← List.drop_drop]
    exact List.drop_sublist _ _
  | case4 p hs ih => exact ih h
  | case5 p hs ih => exact ih h

/-- As many events lie between two places as the places are apart. -/
theorem exists_between {e' : Event} {k : Nat} (h : es[p]? = some e)
    (h' : es[p + 1 + k]? = some e') : ∃ front skipped back,
      es = front ++ e :: skipped ++ e' :: back ∧ front.length = p ∧ skipped.length = k := by
  obtain ⟨hp, rfl⟩ := List.getElem?_eq_some_iff.1 h
  obtain ⟨hp', rfl⟩ := List.getElem?_eq_some_iff.1 h'
  refine ⟨es.take p, (es.drop (p + 1)).take k, es.drop (p + 1 + k + 1), ?_, ?_, ?_⟩
  · calc es = es.take p ++ es.drop p := (List.take_append_drop p es).symm
      _ = es.take p ++ es[p] :: ((es.drop (p + 1)).take k ++ (es.drop (p + 1)).drop k) := by
        rw [List.take_append_drop k, ← List.drop_eq_getElem_cons hp]
      _ = es.take p ++ es[p] :: (es.drop (p + 1)).take k ++
            es[p + 1 + k] :: es.drop (p + 1 + k + 1) := by
        rw [List.drop_drop, List.drop_eq_getElem_cons hp']
        simp
  · simp
    omega
  · simp
    omega

theorem Fits.between {hs mid hs' : List Receipt} {e' : Event}
    (h : Fits es p (hs ++ .event e :: mid ++ .event e' :: hs')) (hmid : received mid = []) :
    ∃ front skipped back, es = front ++ e :: skipped ++ e' :: back ∧
      front.length = p + progress hs ∧ skipped.length = missed mid := by
  rw [fits_append, fits_append] at h
  obtain ⟨⟨-, he, -⟩, he', -⟩ := h
  refine exists_between he ?_
  rw [← he', progress_append]
  simp [progress, received, missed, hmid]
  congr 1
  omega

/-! ## Runs -/

/-- What is done with the hub. Subscriptions are known by the order in which they were made. -/
inductive Op
  | subscribe (restaurant : UInt64)
  | send (e : Event)
  | remove (restaurant : UInt64)
  | receive (i : Nat)
  | drop (i : Nat)
deriving DecidableEq

structure Listener where
  /-- Nothing after it was dropped. -/
  subscription : Option Subscription
  heard : List Receipt

def Listener.receive (l : Listener) (h : Hub) : Listener :=
  match l.subscription with
  | some s => ⟨some (h.receive s).1, l.heard ++ [(h.receive s).2]⟩
  | none => l

structure Board where
  hub : Hub
  listeners : List Listener

namespace Board

def step (b : Board) : Op → Board
  | .subscribe r => ⟨(b.hub.subscribe r).1, b.listeners ++ [⟨some (b.hub.subscribe r).2, []⟩]⟩
  | .send e => { b with hub := b.hub.send e }
  | .remove r => { b with hub := b.hub.remove r }
  | .receive i => { b with listeners := b.listeners.modify i (·.receive b.hub) }
  | .drop i => { b with listeners := b.listeners.modify i fun l => { l with subscription := none } }

def heardBy (b : Board) (i : Nat) : List Receipt := (b.listeners[i]?.map (·.heard)).getD []

end Board

def run (ops : List Op) : Board := ops.foldl Board.step ⟨.fresh, []⟩

/-- The place of a subscription that is made next. -/
def seat (before : List Op) : Nat := (run before).listeners.length

/-- What a subscription to `r` hears that is made between the two parts of a run. -/
def heard (before : List Op) (r : UInt64) (after : List Op) : List Receipt :=
  (run (before ++ .subscribe r :: after)).heardBy (seat before)

/-- The events of a restaurant that are sent before its channel is removed. -/
def sentTo (r : UInt64) : List Op → List Event
  | [] => []
  | .send e :: ops => if e.restaurant = r then e :: sentTo r ops else sentTo r ops
  | .remove r' :: ops => if r' = r then [] else sentTo r ops
  | .subscribe _ :: ops | .receive _ :: ops | .drop _ :: ops => sentTo r ops

theorem sentTo_append (r : UInt64) (ops ops' : List Op) :
    sentTo r (ops ++ ops') = sentTo r ops ++ if .remove r ∈ ops then [] else sentTo r ops' := by
  fun_induction sentTo r ops <;> simp_all [sentTo, eq_comm]

/-- What one operation adds to what a subscription has heard. -/
def reply (r : UInt64) (i : Nat) (after : List Op) (hs : List Receipt) : Op → List Receipt
  | .receive j =>
    if j = i ∧ .drop i ∉ after then [next (sentTo r after) (.remove r ∉ after) (progress hs)]
    else []
  | .subscribe _ | .send _ | .remove _ | .drop _ => []

/-- The subscription `i` to `r` has heard `hs` while `after` was done. -/
structure Follows (b : Board) (r : UInt64) (i : Nat) (after : List Op) (hs : List Receipt) :
    Prop where
  place : ∃ n start, b.hub.Carries r n ⟨start ++ sentTo r after, .remove r ∉ after⟩ ∧
    b.listeners[i]? =
      some ⟨if .drop i ∈ after then none else some ⟨n, start.length + progress hs⟩, hs⟩
  progress_le : progress hs ≤ (sentTo r after).length

namespace Follows

variable {b : Board} {after : List Op} {hs : List Receipt}

theorem heardBy (hf : Follows b r i after hs) : b.heardBy i = hs := by
  obtain ⟨n, start, -, hi⟩ := hf.place
  simp [Board.heardBy, hi]

theorem step (hf : Follows b r i after hs) (op : Op) :
    Follows (b.step op) r i (after ++ [op]) (hs ++ reply r i after hs op) := by
  obtain ⟨⟨n, start, hc, hi⟩, hle⟩ := hf
  cases op with
  | subscribe r' =>
    refine ⟨⟨n, start, ?_, ?_⟩, ?_⟩
    · simpa [Board.step, sentTo_append, sentTo] using hc.subscribe r'
    · have hlt := (List.getElem?_eq_some_iff.1 hi).1
      simp [Board.step, reply, List.getElem?_append_left hlt, hi]
    · simpa [reply, sentTo_append, sentTo] using hle
  | send e =>
    refine ⟨⟨n, start, ?_, by simpa [Board.step, reply] using hi⟩, ?_⟩
    · have hc' := hc.send e
      by_cases hr : e.restaurant = r <;> by_cases hm : Op.remove r ∈ after <;>
        simpa [Board.step, sentTo_append, sentTo, hr, hm] using hc'
    · simp [reply, sentTo_append]
      omega
  | remove r' =>
    refine ⟨⟨n, start, ?_, by simpa [Board.step, reply] using hi⟩, ?_⟩
    · have hc' := hc.remove r'
      by_cases hr : r' = r <;> by_cases hm : Op.remove r ∈ after <;>
        simpa [Board.step, sentTo_append, sentTo, hr, hm, eq_comm (a := r)] using hc'
    · simp [reply, sentTo_append]
      omega
  | receive j =>
    have hnow := receive_eq (p := progress hs) hc
    have hsent : sentTo r (after ++ [.receive j]) = sentTo r after := by
      simp [sentTo_append, sentTo]
    by_cases hj : j = i ∧ .drop i ∉ after
    · obtain ⟨rfl, hdrop⟩ := hj
      refine ⟨⟨n, start, ?_, ?_⟩, ?_⟩
      · simpa [Board.step, hsent] using hc
      · simp [Board.step, Listener.receive, reply, hi, hdrop, hnow, progress_append]
      · rw [hsent, reply, if_pos ⟨rfl, hdrop⟩, progress_append]
        exact progress_next_le hle
    · refine ⟨⟨n, start, ?_, ?_⟩, ?_⟩
      · simpa [Board.step, hsent] using hc
      · by_cases hij : j = i
        · subst hij
          have hdrop : .drop j ∈ after := by simpa using hj
          simp [Board.step, Listener.receive, reply, hi, hdrop]
        · simp [Board.step, reply, hi, hij]
      · simpa [reply, hj, hsent] using hle
  | drop j =>
    refine ⟨⟨n, start, ?_, ?_⟩, ?_⟩
    · simpa [Board.step, sentTo_append, sentTo] using hc
    · by_cases hj : j = i
      · subst hj
        simp [Board.step, reply, hi]
      · simp [Board.step, reply, hi, hj, Ne.symm hj]
    · simpa [reply, sentTo_append, sentTo] using hle

end Follows

section Runs

variable (before after : List Op) (op : Op)

theorem run_append (ops ops' : List Op) : run (ops ++ ops') = ops'.foldl Board.step (run ops) :=
  List.foldl_append

theorem tidy_run (ops : List Op) : (run ops).hub.Tidy := by
  induction ops using List.reverseRecOn with
  | nil => exact Hub.tidy_fresh
  | append_singleton ops op ih =>
    rw [run_append]
    cases op with
    | subscribe r => exact (ih.subscribe r).1
    | send e => exact ih.send e
    | remove r => exact ih.remove r
    | receive i => exact ih
    | drop i => exact ih

theorem follows_heard (before : List Op) (r : UInt64) (after : List Op) :
    Follows (run (before ++ .subscribe r :: after)) r (seat before) after
      (heard before r after) := by
  suffices h : ∃ hs, Follows (run (before ++ .subscribe r :: after)) r (seat before) after hs by
    obtain ⟨hs, hf⟩ := h
    have hheard : heard before r after = hs := hf.heardBy
    rwa [hheard]
  induction after using List.reverseRecOn with
  | nil =>
    obtain ⟨-, n, sent, hc, hs⟩ := (tidy_run before).subscribe r
    refine ⟨[], ⟨n, sent, ?_, ?_⟩, Nat.zero_le _⟩
    · simpa [run_append, Board.step, sentTo] using hc
    · simp [run_append, Board.step, seat, hs, progress, received, missed]
  | append_singleton after op ih =>
    obtain ⟨hs, hf⟩ := ih
    refine ⟨hs ++ reply r (seat before) after hs op, ?_⟩
    have hstep := hf.step op
    simpa [run_append] using hstep

theorem heard_append : heard before r (after ++ [op]) =
    heard before r after ++ reply r (seat before) after (heard before r after) op := by
  have hstep := (follows_heard before r after).step op
  rw [← hstep.heardBy]
  simp [heard, run_append]

theorem heard_nil : heard before r [] = [] := by
  simp [heard, run_append, Board.step, Board.heardBy, seat]

theorem fits_heard (before : List Op) (r : UInt64) (after : List Op) :
    Fits (sentTo r after) 0 (heard before r after) := by
  induction after using List.reverseRecOn with
  | nil => rw [heard_nil]; trivial
  | append_singleton after op ih =>
    rw [heard_append, sentTo_append, fits_append]
    refine ⟨ih.mono _, ?_⟩
    cases op with
    | receive j =>
      simp only [sentTo, ite_self, List.append_nil, Nat.zero_add, reply]
      split
      · exact fits_next
      · trivial
    | _ => trivial

/-! ## A subscription alone -/

/-- What an operation does to the subscription `i`, as if there were no other. -/
def own (i : Nat) : Op → List Op
  | .receive j => if j = i then [.receive 0] else []
  | .drop j => if j = i then [.drop 0] else []
  | .subscribe _ | .send _ | .remove _ => []

/-- The operations on the subscription `i` and on its channel, which is that of `r` up to its
removal. -/
def alone (r : UInt64) (i : Nat) : List Op → List Op
  | [] => []
  | .send e :: ops => if e.restaurant = r then .send e :: alone r i ops else alone r i ops
  | .remove r' :: ops => if r' = r then .remove r :: ops.flatMap (own i) else alone r i ops
  | .subscribe _ :: ops => alone r i ops
  | .receive j :: ops => own i (.receive j) ++ alone r i ops
  | .drop j :: ops => own i (.drop j) ++ alone r i ops

theorem remove_not_mem_own : .remove r ∉ own i op := by
  cases op <;> grind [own]

theorem drop_mem_own : .drop 0 ∈ own i op ↔ op = .drop i := by
  cases op <;> grind [own]

theorem sentTo_own : sentTo r (own i op) = [] := by
  cases op <;> grind [own, sentTo]

theorem alone_append (ops ops' : List Op) : alone r i (ops ++ ops') =
    alone r i ops ++ if .remove r ∈ ops then ops'.flatMap (own i) else alone r i ops' := by
  fun_induction alone r i ops <;> simp_all [alone, eq_comm]

theorem remove_mem_alone (ops : List Op) : .remove r ∈ alone r i ops ↔ .remove r ∈ ops := by
  fun_induction alone r i ops <;> simp_all [remove_not_mem_own, eq_comm]

theorem drop_mem_alone (ops : List Op) : .drop 0 ∈ alone r i ops ↔ .drop i ∈ ops := by
  fun_induction alone r i ops <;> simp_all [drop_mem_own, eq_comm]

theorem sentTo_alone (ops : List Op) : sentTo r (alone r i ops) = sentTo r ops := by
  fun_induction alone r i ops <;>
    simp_all [sentTo, sentTo_append, sentTo_own, remove_not_mem_own]

theorem heard_alone :
    heard [] r (alone r (seat before) after) = heard before r after := by
  induction after using List.reverseRecOn with
  | nil => simp [alone, heard_nil]
  | append_singleton after op ih =>
    have hseat : seat [] = 0 := rfl
    rw [heard_append, alone_append]
    cases op with
    | receive j =>
      by_cases hj : j = seat before
      · simp [alone, own, hj, heard_append, reply, hseat, ih, sentTo_alone, remove_mem_alone,
          drop_mem_alone]
      · simp [alone, own, hj, reply, ih]
    | drop j =>
      by_cases hj : j = seat before <;> simp [alone, own, hj, heard_append, reply, ih]
    | send e =>
      by_cases hm : .remove r ∈ after <;> by_cases he : e.restaurant = r <;>
        simp [alone, own, hm, he, heard_append, reply, ih]
    | remove r' =>
      by_cases hm : .remove r ∈ after <;> by_cases hr : r' = r <;>
        simp [alone, own, hm, hr, heard_append, reply, ih]
    | subscribe r' => simp [alone, own, reply, ih]

end Runs

/-- What a subscription hears of a run, up to any point of it. The events that it receives are among
those sent to its channel, in their order; between two of them as many are skipped as it is told;
each read is answered by `next`, and with nothing to read only when all events are accounted for;
and nothing else that is done in the run makes a difference. -/
theorem heard_accounts (before : List Op) (r : UInt64) (after : List Op) :
    (received (heard before r after)).Sublist (sentTo r after) ∧
      (∀ hs mid hs' e e', heard before r after = hs ++ .event e :: mid ++ .event e' :: hs' →
        received mid = [] → ∃ front skipped back,
          sentTo r after = front ++ e :: skipped ++ e' :: back ∧
            front.length = progress hs ∧ skipped.length = missed mid) ∧
      (.drop (seat before) ∉ after → heard before r (after ++ [.receive (seat before)]) =
        heard before r after ++
          [next (sentTo r after) (.remove r ∉ after) (progress (heard before r after))]) ∧
      (∀ x, heard before r (after ++ [.receive (seat before)]) = heard before r after ++ [x] →
        x = .empty ∨ x = .closed →
          (received (heard before r after)).length + missed (heard before r after) =
            (sentTo r after).length ∧ (x = .closed ↔ .remove r ∈ after)) ∧
      heard before r after = heard [] r (alone r (seat before) after) := by
  have hfits := fits_heard before r after
  have hread := heard_append before after (.receive (seat before)) (r := r)
  refine ⟨by simpa using hfits.sublist, ?_, ?_, ?_, (heard_alone before after).symm⟩
  · intro hs mid hs' e e' hheard hmid
    rw [hheard] at hfits
    simpa using hfits.between hmid
  · intro hdrop
    rw [hread, reply, if_pos ⟨rfl, hdrop⟩]
  · intro x hx hidle
    have hle := (follows_heard before r after).progress_le
    rw [hread, List.append_cancel_left_eq, reply] at hx
    split at hx
    · obtain rfl := List.singleton_inj.1 hx
      rw [next_eq_empty_iff hle, next_eq_closed_iff hle] at hidle
      have hdone : progress (heard before r after) = (sentTo r after).length := by
        rcases hidle with h | h <;> exact h.1
      refine ⟨hdone, ?_⟩
      rw [next_eq_closed_iff hle]
      simp [hdone]
    · cases hx

/-- The `n`-th event of a restaurant. -/
def told (n : Nat) : Event := .occupied (.ofNat n) 1 3 8 ⟨"occupancy:1:2024-01-01:12:00:00"⟩

/-- One event is read, and then come two more than a channel keeps. -/
def overrun : List Op :=
  .send (told 0) :: .receive 1 :: (List.range 258).map (fun n => .send (told (n + 1))) ++
    [.receive 0, .receive 1, .receive 1]

theorem heard_accounts_overrun :
    (∃ front skipped back, sentTo 1 overrun = front ++ told 0 :: skipped ++ told 3 :: back ∧
        front.length = 0 ∧ skipped.length = 2) ∧
      heard [.subscribe 2] 1 (overrun ++ [.receive 1]) =
        [.event (told 0), .lagged 2, .event (told 3), .event (told 4)] ∧
      (received (heard [] 1 [.remove 1])).length + missed (heard [] 1 [.remove 1]) =
        (sentTo 1 [.remove 1]).length := by
  have hheard : heard [.subscribe 2] 1 overrun =
      [.event (told 0), .lagged 2, .event (told 3)] := by decide +kernel
  have hnext : next (sentTo 1 overrun) (.remove 1 ∉ overrun) 4 = .event (told 4) := by
    decide +kernel
  obtain ⟨-, hskip, hread, -⟩ := heard_accounts [.subscribe 2] 1 overrun
  obtain ⟨-, -, -, hidle, -⟩ := heard_accounts [] 1 [.remove 1]
  refine ⟨hskip [] [.lagged 2] [] (told 0) (told 3) hheard rfl, ?_, ?_⟩
  · have hprogress : progress [.event (told 0), .lagged 2, .event (told 3)] = 4 := rfl
    have hlast := hread (by decide +kernel)
    rw [hheard, hprogress, hnext] at hlast
    exact hlast
  · exact (hidle .closed (by decide +kernel) (.inr rfl)).1

end Notice

end Turnstile
