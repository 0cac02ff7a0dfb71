import Turnstile.Proofs.Admission.Tiers

/-!
# One reservation under each lock

A reservation that cannot reach the fair lock works under its substitute, and the two locks know
nothing of each other. However the fair lock comes and goes, there is one reservation at most under
each of them, and who asks for candidates or offers them to the writer is under exactly one
(`reach_tiered`). When the fair lock is lost while somebody works under it, a second one may start
under the substitute, so there may be two at once (`failover_overlaps`).
-/

namespace Turnstile.Admission

/-- The tickets in the two lines were drawn before. -/
def Desk.Numbered (key : SlotKey) (d : Desk) : Prop :=
  ∀ spare, ∀ t ∈ (d.store.latch (latchName spare key)).members, t < d.tickets

section

variable {spare b : Bool} {key : SlotKey} {w w' : Crowd (.tiers key)} {th : Thread (.tiers key)}
  {cur : Option (Nat × Ticket)} {i : Nat} {d : Desk}

namespace Crowd

/-- What holds of both locks between any two steps. -/
structure Guarded (w : Crowd (.tiers key)) : Prop where
  waits : ∀ (i : Nat) th, w.threads[i]? = some th → th.Waits
  tiers : ∀ spare, ∃ cur, Tier spare w cur

namespace Guarded

theorem waits_set (h : Guarded w) (hi : w.threads[i]? = some th) {th' : Thread (.tiers key)}
    (hw : th'.Waits) (j : Nat) (th₁ : Thread (.tiers key))
    (hj : (w.threads.set i th')[j]? = some th₁) : th₁.Waits := by
  rcases getElem?_set_cases hj with ⟨rfl, rfl⟩ | ⟨-, hj⟩
  · exact hw
  · exact h.waits j th₁ hj

/-- A look at a call for one lock is none at the other. -/
theorem untouched {p : Policy} {q : Request} {c : Call} {look : Look c.Answer Slip}
    (h : Guarded w) (hi : w.threads[i]? = some th) (hc : th.strand.call? = some c)
    (hb : c.tier? = some b) (hq : q.slot.key = key) (ha : (Phase.door b).Asks p q c)
    (hs : w.state.Serves b key th.pending.join d c look) (hne : spare ≠ b) :
    w.state.Untouched spare key d ∧ w.state.tickets ≤ d.tickets := by
  obtain ⟨cur, ht⟩ := h.tiers b
  obtain ⟨t, hd, -⟩ := ht.knocks (h.waits i th hi) hi hc hb hq ha hs
  have hu := hs.untouched hq ha ht.members ((h.waits i th hi).at_call hc hb)
  have : spare = !b := by cases spare <;> cases b <;> simp_all
  rw [this]
  exact ⟨hu, hd.tickets⟩

theorem answer {c : Call} {a : c.Answer} {s : Strand collaborators Release th.task.Result}
    (h : Guarded w) (hl : w.Led) (ho : w.Opened) (hi : w.threads[i]? = some th)
    (hd : th.dropped = false) (hstep : th.strand.Step Release.program [⟨c, a⟩] s)
    (hs : w.state.Tends key th.pending.join d c (.answered a)) :
    Guarded ⟨d, w.threads.set i { th with strand := s, pending := none },
      w.log ++ [(i, ⟨c, a⟩)]⟩ := by
  have hc : th.strand.call? = some c := call?_of_step_call hstep
  have hlog : ∀ j, j ≠ i → own j (w.log ++ [(i, ⟨c, a⟩)]) = own j w.log :=
    fun j hj => own_snoc_of_ne hj.symm
  have hdeal := Task.deal (hl.leads i th hi) hc a
  have hbefore : th.keeps? (own i w.log) = th.task.keeps? (own i w.log) := th.keeps?_of_live hd
  have hafter : ({ th with strand := s, pending := none } : Thread (.tiers key)).keeps?
      (own i (w.log ++ [(i, ⟨c, a⟩)])) = th.task.keeps? (own i w.log ++ [⟨c, a⟩]) := by
    rw [own_snoc_self]
    exact Thread.keeps?_of_live hd
  refine ⟨h.waits_set hi nofun, fun spare => ?_⟩
  obtain ⟨cur, ht⟩ := h.tiers spare
  -- A thread that has nothing to do with this lock keeps no more than before.
  have hstay (hu : w.state.Untouched spare key d) (hn : w.state.tickets ≤ d.tickets)
      (hk : ∀ r, th.task.keeps? (own i w.log ++ [⟨c, a⟩]) = some r → r.tier? = some spare →
        th.task.keeps? (own i w.log) = some r) :
      ∃ cur', Tier spare ⟨d, w.threads.set i { th with strand := s, pending := none },
        w.log ++ [(i, ⟨c, a⟩)]⟩ cur' := by
    refine ⟨cur, ht.stay hi hlog hu hn ?_ fun t hq => absurd hq (Thread.not_queues rfl)⟩
    rw [hafter, hbefore]
    exact hk
  generalize hx : th.task.keeps? (own i w.log) = x at hdeal hbefore hstay
  generalize hy : th.task.keeps? (own i w.log ++ [⟨c, a⟩]) = y at hdeal hafter hstay
  obtain ⟨k, hk⟩ : ∃ k, th.task = k := ⟨_, rfl⟩
  rw [hk] at hdeal
  cases hdeal with
  | @knocks p q _ _ b hb ha =>
    have hq : q.slot.key = key := ho th (List.mem_of_getElem? hi) p q hk
    obtain hserve | ⟨rfl, a', he, hn⟩ := hs.knock hb
    · by_cases hsb : spare = b
      · subst hsb
        exact ht.knock_answer (h.waits i th hi) hi hc hb hq ha hserve hlog rfl hafter
      · obtain ⟨hu, hn⟩ := h.untouched hi hc hb hq ha hserve hsb
        refine hstay hu hn fun r hr hs => ?_
        exact absurd (Option.some.inj (hs.symm.trans (ha.granted hb hr).2)) hsb
    · -- the fair lock was out of reach
      cases he
      refine hstay .refl (Nat.le_refl _) fun r hr _ => ?_
      rw [(ha.granted hb hr).1] at hn
      cases hn
  | unlocks _ k owner =>
    obtain ⟨cur₀, ht₀⟩ := h.tiers false
    obtain ⟨t, rfl, rfl, hholder⟩ := ht₀.alone i th _ hi hbefore rfl
    obtain ⟨rfl, -⟩ | ⟨rfl, -⟩ := hs
    · cases spare with
      | false =>
        exact ⟨none, ht₀.depart hi hlog (Local.Store.unlock_of_holder hholder).2.2.2 rfl hafter rfl⟩
      | true => exact hstay (Desk.unlock_untouched hholder) (Nat.le_refl _) nofun
    · exact hstay .refl (Nat.le_refl _) nofun
  | spareUnlocks _ held =>
    obtain ⟨cur₁, ht₁⟩ := h.tiers true
    obtain ⟨t, rfl, rfl⟩ := ht₁.alone i th _ hi hbefore rfl
    obtain ⟨rfl, -⟩ := hs
    cases spare with
    | false => exact hstay (Desk.leaveLatch_untouched true key w.state t) (Nat.le_refl _) nofun
    | true => exact ⟨none, ht₁.depart hi hlog Local.Store.latch_leaveLatch rfl hafter rfl⟩
  | goesOn hn hxy =>
    have he := hs.elsewhere hn
    exact hstay (he.locks spare) he.tickets fun r hr _ => hxy r hr

theorem block {c : Call} {x : Slip} (h : Guarded w) (hl : w.Led) (ho : w.Opened)
    (hi : w.threads[i]? = some th) (hd : th.dropped = false) (hc : th.strand.call? = some c)
    (hs : w.state.Tends key th.pending.join d c (.blocked x)) :
    Guarded { w with state := d, threads := w.threads.set i { th with pending := some x } } := by
  obtain ⟨b, hb⟩ := hs.blocked
  obtain ⟨p, q, hk, ha, hn⟩ := Task.knocks (hl.leads i th hi) hc hb
  have hq : q.slot.key = key := ho th (List.mem_of_getElem? hi) p q hk
  have hnone : th.keeps? (own i w.log) = none := (th.keeps?_of_live hd).trans hn
  have hserve : w.state.Serves b key th.pending.join d c (.blocked x) := by
    obtain hserve | ⟨-, a, he, -⟩ := hs.knock hb
    · exact hserve
    · cases he
  obtain ⟨cur₀, ht₀⟩ := h.tiers b
  obtain ⟨ht', t, owner, deadline, rfl, hw⟩ :=
    ht₀.knock_block (h.waits i th hi) hi hc hb hq ha hnone hserve
  refine ⟨h.waits_set hi ?_, fun spare => ?_⟩
  · rintro y ⟨⟩
    exact ⟨c, b, owner, deadline, hc, hb, hw, rfl⟩
  · by_cases hsb : spare = b
    · subst hsb
      exact ⟨cur₀, ht'⟩
    · obtain ⟨hu, htick⟩ := h.untouched hi hc hb hq ha hserve hsb
      obtain ⟨cur, ht⟩ := h.tiers spare
      refine ⟨cur, ht.stay hi (fun _ _ => rfl) hu htick (fun r hr _ => hr) fun t' hq' => ?_⟩
      have hqueue : ({ th with pending := some (some (t,
          .turn (latchName b key) owner deadline)) } : Thread (.tiers key)).Queues b t :=
        ⟨owner, deadline, rfl⟩
      exact absurd (hq'.unique hqueue).1 hsb

/-- A dropped thread leaves the line in which it stands, and has nothing in its hands. -/
theorem leave {c : Call} (h : Guarded w) (hl : w.Led) (hi : w.threads[i]? = some th)
    (hd : th.dropped = false) (hc : th.strand.call? = some c) (hs : Tier spare w cur) :
    Tier spare ⟨w.state.abandon th.pending.join,
      w.threads.set i { th with pending := none, dropped := true }, w.log⟩ cur ∧
      (th.keeps? (own i w.log) ≠ none → w.state.abandon th.pending.join = w.state) := by
  have hnoq (t : Ticket) :
      ¬ ({ th with pending := none, dropped := true } : Thread (.tiers key)).Queues spare t :=
    Thread.not_queues rfl
  cases hp : th.pending.join with
  | none =>
    refine ⟨hs.stay hi (fun _ _ => rfl) .refl (Nat.le_refl _) (fun r hr => ?_) ?_, fun _ => rfl⟩
    · cases hr
    · exact fun t hq => absurd hq (hnoq t)
  | some x =>
    obtain ⟨c', b, owner, deadline, hc', hb, -, hw⟩ := h.waits i th hi x hp
    cases hc.symm.trans hc'
    obtain ⟨t, w'⟩ := x
    dsimp only at hw
    subst hw
    refine ⟨?_, fun hk => ?_⟩
    · by_cases hsb : spare = b
      · subst hsb
        exact hs.quit hi ⟨owner, deadline, hp⟩ Local.Store.latch_leaveLatch
          Local.Store.holders_leaveLatch rfl rfl rfl
      · have hu : w.state.Untouched spare key
            { w.state with store := (w.state.store.leaveLatch (latchName b key) t).1 } := by
          have := Desk.leaveLatch_untouched b key w.state t
          cases spare <;> cases b <;> first | exact absurd rfl hsb | exact this
        refine hs.stay hi (fun _ _ => rfl) hu (Nat.le_refl _) (fun r hr => ?_) ?_
        · cases hr
        · exact fun t hq => absurd hq (hnoq t)
    · -- who stands in a line has no lock yet
      obtain ⟨p, q, -, -, hn⟩ := Task.knocks (hl.leads i th hi) hc hb
      exact absurd ((th.keeps?_of_live hd).trans hn) hk

theorem drop {c : Call} (h : Guarded w) (hl : w.Led) (hi : w.threads[i]? = some th)
    (hd : th.dropped = false) (hc : th.strand.call? = some c) (ha : c.isAwaited = true) :
    Guarded { w with
      state := w.state.abandon th.pending.join
      threads := w.threads.set i { th with pending := none, dropped := true } ++
        th.strand.owed.map fun r => .start (.release r) } := by
  have hled := (hl.set hi none true).office (w.state.abandon th.pending.join)
  refine ⟨fun j th₁ hj => ?_, fun spare => ?_⟩
  · rcases List.mem_append.1 (List.mem_of_getElem? hj) with hm | hm
    · obtain ⟨n, hn⟩ := List.mem_iff_getElem?.1 hm
      exact h.waits_set hi (fun x hx => by cases hx) n th₁ hn
    · obtain ⟨r, -, rfl⟩ := List.mem_map.1 hm
      intro x hx
      cases hx
  obtain ⟨cur, ht⟩ := h.tiers spare
  obtain ⟨hleft, hsame⟩ := h.leave hl hi hd hc ht
  rcases Task.owed (hl.leads i th hi) hc ha with ho | ⟨rs, r, ho, hk, hrs⟩
  · exact ⟨cur, hleft.unload hled _ (by simp [ho])⟩
  by_cases hr : r.tier? = some spare
  · -- the task of `r` takes the lock over
    have hk' : th.keeps? (own i w.log) = some r := (th.keeps?_of_live hd).trans hk
    obtain ⟨t, rfl, hback⟩ := ht.alone i th r hi hk' hr
    rw [← hsame (by rw [hk']; exact nofun)] at hback
    rw [ho]
    refine ⟨_, hleft.inherit hled hrs (fun th₁ hj => ?_) hback⟩
    rw [List.getElem?_set_self (List.getElem?_eq_some_iff.1 hi).1] at hj
    cases hj
    rfl
  · refine ⟨cur, hleft.unload hled _ fun r' hr' => ?_⟩
    rw [ho] at hr'
    rcases List.mem_append.1 hr' with hm | hm
    · rw [hrs r' hm]
      exact nofun
    · rw [List.mem_singleton.1 hm]
      exact hr

theorem step (h : Guarded w) (hl : w.Led) (ho : w.Opened) (hs : w.Step w') : Guarded w' := by
  cases hs with
  | arrive p q _ =>
    refine ⟨fun j th₁ hj => ?_, fun spare => ?_⟩
    · rcases List.mem_append.1 (List.mem_of_getElem? hj) with hm | hm
      · obtain ⟨n, hn⟩ := List.mem_iff_getElem?.1 hm
        exact h.waits n th₁ hn
      · rw [List.mem_singleton.1 hm]
        intro x hx
        cases hx
    · obtain ⟨cur, ht⟩ := h.tiers spare
      refine ⟨cur, ht.spawn hl [.reserve p q] cur (fun n k r hn hk => ?_) (fun _ _ _ _ _ _ => rfl)
        fun x hx => ⟨x, hx, rfl⟩⟩
      obtain rfl : k = .reserve p q := List.mem_singleton.1 (List.mem_of_getElem? hn)
      have hstart : (Phase.start p).hold? = none := by
        unfold Phase.start
        split <;> rfl
      have hk' : (Phase.start p).hold?.map (Hold.release q) = some r := hk
      rw [hstart] at hk'
      cases hk'
  | silent i th s hi hd hstep =>
    refine ⟨h.waits_set hi fun x hx => ?_, fun spare => ?_⟩
    · obtain ⟨c, b, owner, deadline, hc, -⟩ := h.waits i th hi x hx
      rw [call?_of_step hstep] at hc
      cases hc
    · obtain ⟨cur, ht⟩ := h.tiers spare
      exact ⟨cur, ht.stay hi (fun _ _ => rfl) .refl (Nat.le_refl _) (fun r hr _ => hr)
        fun t hq => hq⟩
  | answer i th c a s d hi hd hstep hlook =>
    obtain hlook | ⟨-, -, -, hlook⟩ := hlook
    · exact h.answer hl ho hi hd hstep hlook
    · cases hlook
  | block i th c x d hi hd hc hlook =>
    obtain hlook | ⟨-, hp, rfl, hlook⟩ := hlook
    · exact h.block hl ho hi hd hc hlook
    · -- the call was put off, and no lock knows of it
      cases hlook
      refine ⟨h.waits_set hi fun x hx => (by cases hx), fun spare => ?_⟩
      obtain ⟨cur, ht⟩ := h.tiers spare
      exact ⟨cur, ht.stay hi (fun _ _ => rfl) .refl (Nat.le_refl _) (fun r hr _ => hr)
        fun t hq => absurd hq (Thread.not_queues rfl)⟩
  | drop i th c d hi hd hc ha hdrop =>
    obtain rfl : d = w.state.abandon th.pending.join := hdrop
    exact h.drop hl hi hd hc ha
  | stir d hd =>
    refine ⟨h.waits, fun spare => ?_⟩
    obtain ⟨cur, ht⟩ := h.tiers spare
    exact ⟨cur, ht.state (hd.locks spare) hd.tickets⟩

theorem start (hd : d.Numbered key) :
    Guarded (empty d : Crowd (.tiers key)) where
  waits i th hi := by simp [empty] at hi
  tiers spare :=
    ⟨none, fun i th r hi => by simp [empty] at hi, nofun, hd spare,
      fun i th t hi => by simp [empty] at hi, fun i j th th' t t' _ hi => by simp [empty] at hi⟩

end Guarded

end Crowd

end

/-! ## What holds of every run -/

namespace Crowd

variable {O : Office}

/-- The reservation `i` is under way and has the lock of the tier. -/
def holds (w : Crowd O) (spare : Bool) (i : Nat) : Bool :=
  match w.threads[i]? with
  | some ⟨.reserve _ _, _, _, false⟩ => holdsTier spare (own i w.log)
  | _ => false

/-- The thread `i` offers a candidate to the writer. -/
def offers (w : Crowd O) (i : Nat) : Bool :=
  match w.threads[i]?.bind fun th => th.strand.call? with
  | some (.create _) => true
  | _ => false

/-- The reservation `i` is under way and its walk is not over: it has its lock, and its candidate
query, its call for permits or a candidate that it offers comes next. -/
def selects (w : Crowd O) (i : Nat) : Bool :=
  match w.threads[i]? with
  | some ⟨.reserve p q, _, _, false⟩ => (Phase.along p q (own i w.log)).isEarly
  | _ => false

/-- Each lock guards one reservation at most. -/
structure Tiered (w : Crowd O) : Prop where
  exclusive : ∀ spare i j, w.holds spare i = true → w.holds spare j = true → i = j
  /-- Between its candidate query and the end of its walk, a reservation has one of the locks. -/
  covered : ∀ i, w.selects i = true → ∃ spare, ∀ b, w.holds b i = true ↔ b = spare

end Crowd

section

variable {spare : Bool} {key : SlotKey} {w : Crowd (.tiers key)} {i : Nat} {d : Desk}

theorem Crowd.Reach.tiers (h : Crowd.Reach d w) (hd : d.Numbered key) : w.Guarded := by
  induction h with
  | start => exact .start hd
  | step h hs ih => exact ih.step h.led h.opened hs

/-- Whoever holds a lock by its calls has it in its hands. -/
theorem Tier.holder {cur : Option (Nat × Ticket)} (h : Tier spare w cur) (hl : w.Led)
    (hh : w.holds spare i = true) : ∃ t, cur = some (i, t) := by
  unfold Crowd.holds at hh
  split at hh
  · rename_i p q strand v hi
    obtain ⟨l, hφ, rfl⟩ := (reserve_holdsTier (hl.leads i _ hi) spare).1 hh
    have hk : Thread.keeps? (own i w.log) (⟨.reserve p q, strand, v, false⟩ : Thread (.tiers key)) =
        some (l.release q) := by
      show (Phase.along p q (own i w.log)).hold?.map (Hold.release q) = _
      rw [hφ]
      rfl
    obtain ⟨t, hc, -⟩ := h.alone i _ _ hi hk Hold.tier?_release
    exact ⟨t, hc⟩
  · cases hh

theorem Phase.hold?_of_isEarly {φ : Phase} (h : φ.isEarly = true) : ∃ l, φ.hold? = some l := by
  cases φ <;> first | exact ⟨_, rfl⟩ | cases h

end

/-- However the fair lock comes and goes, and whoever is dropped, there is one reservation at most
under each of the two locks. -/
theorem reach_tiered {key : SlotKey} {d : Desk} {w : Crowd (.tiers key)} (hd : d.Numbered key)
    (h : Crowd.Reach d w) : w.Tiered where
  exclusive spare i j hi hj := by
    obtain ⟨cur, ht⟩ := (h.tiers hd).tiers spare
    obtain ⟨t, hc⟩ := ht.holder h.led hi
    obtain ⟨t', hc'⟩ := ht.holder h.led hj
    cases hc.symm.trans hc'
    rfl
  covered i hi := by
    unfold Crowd.selects at hi
    split at hi
    · rename_i p q strand v hth
      obtain ⟨l, hl⟩ := Phase.hold?_of_isEarly hi
      refine ⟨l.isSpare, fun b => ?_⟩
      have hholds : w.holds b i = holdsTier b (own i w.log) := by
        unfold Crowd.holds
        rw [hth]
      rw [hholds, reserve_holdsTier (h.led.leads i _ hth) b]
      constructor
      · rintro ⟨l', hl', rfl⟩
        cases hl.symm.trans hl'
        rfl
      · rintro rfl
        exact ⟨l, hl, rfl⟩
    · cases hi

/-! ## The fair lock is lost while somebody works under it -/

namespace Sample

/-- A controller with a substitute for the fair lock. -/
def spared : Policy := { policy with spareLock := true }

/-- The locks answer, but the fair lock is out of reach while somebody holds it. Everybody else
answers as at `serve`. -/
def tend (d : Desk) : (c : Call) → Option Slip → Option (Desk × Look c.Answer Slip)
  | .lock k owner wait, v =>
    match v.join with
    | some _ => none
    | none =>
      if (d.store.latch k.text).isIdle then serve d (.lock k owner wait) v
      else some (d, .answered (.error (.unavailable "down")))
  | .spareLock k wait, v =>
    let r := d.attempt (.named k.text wait) v.join
    some (r.1, r.2.map (Except.map (Option.map (Held.mk k.text))))
  | .isHeldBy k owner, v => serve d (.isHeldBy k owner) v
  | .unlock k owner, v => serve d (.unlock k owner) v
  | .spareUnlock _, _ => none
  | .query slot, v => serve d (.query slot) v
  | .create entry, v => serve d (.create entry) v
  | c, _ => some (d, .answered (answer c))

theorem looks_of_tend (d : Desk) (c : Call) (v : Option Slip) (d' : Desk)
    (look : Look c.Answer Slip) (h : tend d c v = some (d', look)) :
    (Office.tiers request.slot.key).Looks d c v d' look := by
  left
  cases c with
  | lock k owner wait =>
    simp only [tend] at h
    split at h
    · cases h
    · rename_i hv
      rw [hv]
      split at h
      · cases h
        rw [hv]
        exact .inl ⟨rfl, rfl⟩
      · cases h
        exact .inr ⟨rfl, rfl, _, rfl⟩
  | spareLock => cases h; exact ⟨rfl, rfl⟩
  | isHeldBy => cases h; exact .inl ⟨rfl, rfl⟩
  | unlock => cases h; exact .inl ⟨rfl, rfl⟩
  | spareUnlock => cases h
  | create => cases h; exact ⟨⟨fun _ => ⟨rfl, fun _ => rfl⟩, Nat.le_refl _, Nat.le_refl _⟩, _, rfl⟩
  | _ => cases h; exact ⟨.refl, _, rfl⟩

/-- One reservation makes `n` steps, and then another one `m`. -/
def failover (n m : Nat) : Crowd (.tiers request.slot.key) :=
  (List.replicate n 0 ++ List.replicate m 1).foldl (Crowd.turn tend)
    ⟨desk, [.start (.reserve spared request), .start (.reserve spared request)], []⟩

theorem reach_failover (n m : Nat) : Crowd.Reach desk (failover n m) := by
  have h₁ : Crowd.Reach desk (.empty desk : Crowd (.tiers request.slot.key)) := .start
  have h₂ := h₁.step (.arrive _ spared request rfl)
  have h₃ := h₂.step (.arrive _ spared request rfl)
  exact h₃.turns looks_of_tend _

theorem desk_numbered : desk.Numbered request.slot.key := by
  intro spare t ht
  cases spare <;> cases ht

end Sample

/-- Two reservations at once, each under its own lock. -/
theorem sample_tiered :
    (Sample.failover 11 14).selects 0 = true ∧ (Sample.failover 11 14).holds false 0 = true ∧
    (Sample.failover 11 14).selects 1 = true ∧ (Sample.failover 11 14).holds true 1 = true ∧
    (Sample.failover 11 14).Tiered :=
  ⟨by decide +kernel, by decide +kernel, by decide +kernel, by decide +kernel,
    reach_tiered Sample.desk_numbered (Sample.reach_failover 11 14)⟩

/-- It is not true that there is one reservation at most between its candidate query and the end of
its walk: two may offer a candidate to the writer at once. -/
theorem failover_overlaps :
    ¬ ∀ (key : SlotKey) (d : Desk) (w : Crowd (.tiers key)), d.Numbered key → Crowd.Reach d w →
      ∀ i j, w.offers i = true → w.offers j = true → i = j := by
  intro h
  have h₀ : (Sample.failover 11 14).offers 0 = true := by decide +kernel
  have h₁ : (Sample.failover 11 14).offers 1 = true := by decide +kernel
  have := h _ _ _ Sample.desk_numbered (Sample.reach_failover 11 14) 0 1 h₀ h₁
  cases this

end Turnstile.Admission
