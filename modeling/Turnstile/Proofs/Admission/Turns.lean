import Turnstile.Proofs.Admission.Discipline
import Turnstile.Proofs.Admission.Tidy

/-!
# Turns

Every step of a room keeps it tidy (`Room.Reach.tidy`). The lock lets somebody in only when nobody
is inside, since the latch is held by the ticket of whoever is. Whoever is inside finds the pool
rested and the first candidate that is left free, because all others are outside.
-/

namespace Turnstile.Admission

/-- No store fails, so there is nothing that the substitute's way of telling it would change. -/
theorem share_unprocessable (free : List Candidate) (first : UInt64) (p : Policy) (k : Nat) :
    (share free first p k).mapError unprocessable = share free first p k := by
  unfold share
  split
  · rfl
  · split <;> rfl

theorem permitCount_toNat (cs : List Candidate) :
    (Policy.permitCount cs).toNat = min cs.length 10000 := by
  unfold Policy.permitCount
  rw [UInt32.toNat_ofNat']
  have : Limits.maxPermits.toNat = 10000 := rfl
  omega

theorem permitCount_pos {cs : List Candidate} (h : cs ≠ []) : 0 < Policy.permitCount cs := by
  have := List.length_pos_iff.2 h
  rw [UInt32.lt_iff_toNat_lt, permitCount_toNat]
  show 0 < _
  omega

theorem permitCount_le (cs : List Candidate) : Policy.permitCount cs ≤ Limits.maxPermits := by
  rw [UInt32.le_iff_toNat_le, permitCount_toNat]
  exact Nat.min_le_right _ _

section

variable {spare : Bool} {slot : Slot} {l₀ : Ledger} {r : Room} {cur : Option Visit} {d d' : Desk}
  {s : Seat} {i : Nat} {l : Hold} {t : Ticket}

namespace Room.Tidy

theorem stay (h : Tidy spare slot l₀ r cur) (hq : r.desk.Quiet spare slot.key d)
    (hi : r.seats[i]? = some s) (hn : i ∉ r.order.map (·.1)) {ψ : Phase}
    (hψ : ψ.isOutside spare) :
    Tidy spare slot l₀ ⟨d, r.seats.set i ⟨s.policy, s.request, ψ, none⟩, r.order⟩ cur :=
  (h.quiet hq).reseat hi hn hψ (fun _ hy => nomatch hy) (fun _ hy => nomatch hy)

/-! ### The line of the lock -/

section

variable {c : Call} {look : Look c.Answer Slip}

theorem slip (h : Tidy spare slot l₀ r cur) (hi : r.seats[i]? = some s)
    (hc : ∀ x ∈ s.waits, x.1 = c) :
    ∀ x ∈ s.waits.map (·.2), x.1 < r.desk.tickets ∧ ∃ owner deadline, c.wants? = some owner ∧
      x.2 = .turn (latchName spare slot.key) owner deadline := by
  intro x hx
  obtain ⟨y, hy, rfl⟩ := Option.map_eq_some_iff.1 hx
  have hl := h.inLine i s y hi hy
  rw [← hc y hy]
  exact ⟨hl.bound, hl.turn⟩

/-- A ticket that a seat draws or has drawn is nobody else's. -/
theorem ticket_ne (h : Tidy spare slot l₀ r cur) (hi : r.seats[i]? = some s)
    (hd : r.desk.Draws (s.waits.map (·.2)) t d) :
    (∀ u ∈ cur, u.ticket ≠ t) ∧
      ∀ j s' y, j ≠ i → r.seats[j]? = some s' → s'.waits = some y → t ≠ y.2.1 := by
  obtain ht | ⟨-, rfl⟩ := hd.ticket
  · rw [Option.map_map] at ht
    obtain ⟨x, hx, rfl⟩ := Option.map_eq_some_iff.1 ht
    exact ⟨(h.inLine i s x hi hx).other,
      fun j s' y hj hs hy => h.apart i j s s' x y hj.symm hi hs hx hy⟩
  · refine ⟨fun u hu => Nat.ne_of_lt (h.inside u hu).bound, fun j s' y _ hs hy => ?_⟩
    exact (Nat.ne_of_lt (h.inLine j s' y hs hy).bound).symm

theorem quiet_of_draws (h : Tidy spare slot l₀ r cur) {v : Slip} (hd : r.desk.Draws v t d)
    (holder : (d.store.latch (latchName spare slot.key)).holder? =
      (r.desk.store.latch (latchName spare slot.key)).holder?)
    (holders : d.store.holders = r.desk.store.holders)
    (pools : d.store.pools = r.desk.store.pools)
    (members : ∀ x ∈ (d.store.latch (latchName spare slot.key)).members,
      x = t ∨ x ∈ (r.desk.store.latch (latchName spare slot.key)).members) :
    r.desk.Quiet spare slot.key d where
  holder := holder
  members x hx := by
    rcases members x hx with rfl | hx
    · exact hd.bound
    · exact Nat.lt_of_lt_of_le (h.members x hx) hd.tickets
  owner := by rw [holders]
  pool p hp := by rwa [pools] at hp
  ledger := hd.ledger
  tickets := hd.tickets

/-- A seat asks for the lock under a ticket that is its own, with a key that is good unless it is
turned away. -/
theorem knocks (h : Tidy spare slot l₀ r cur) (hi : r.seats[i]? = some s)
    (hφ : s.phase = .door spare) (ha : s.phase.Asks s.policy s.request c)
    (hc : ∀ x ∈ s.waits, x.1 = c)
    (hs : r.desk.Serves spare slot.key (s.waits.map (·.2)) d c look) :
    i ∉ r.order.map (·.1) ∧
      (Limits.checkKey slot.key.text = .ok () ∨ ∃ a, look = .answered a ∧ c.locks a = false) ∧
      ∃ t, r.desk.Draws (s.waits.map (·.2)) t d ∧
        Knock spare slot.key s.policy s.request r.desk.store t d.store c look ∧
        d.store.pools = r.desk.store.pools ∧
        ∀ x ∈ (d.store.latch (latchName spare slot.key)).members,
          x = t ∨ x ∈ (r.desk.store.latch (latchName spare slot.key)).members := by
  have hkey := h.keyed i s hi
  rw [hφ] at ha
  have hs' := hs
  rw [← hkey] at hs'
  refine ⟨h.not_granted hi fun _ _ => ?_, ?_, ?_⟩
  · rw [hφ]
    cases spare <;> exact id
  · cases hw : s.waits with
    | some x => exact .inl (h.inLine i s x hi hw).checked
    | none =>
      rw [hw] at hs'
      rw [← hkey]
      exact hs'.checked ha
  · have := hs'.knock ha (by rw [hkey]; exact h.members) (by rw [hkey]; exact h.slip hi hc)
    rwa [hkey] at this

theorem door_answer {a : c.Answer} (h : Tidy spare slot l₀ r cur) (hi : r.seats[i]? = some s)
    (hφ : s.phase = .door spare) (ha : s.phase.Asks s.policy s.request c)
    (hc : ∀ x ∈ s.waits, x.1 = c)
    (hs : r.desk.Serves spare slot.key (s.waits.map (·.2)) d c (.answered a)) :
    ∃ cur', Tidy spare slot l₀
      ⟨d, r.seats.set i ⟨s.policy, s.request, s.phase.next s.policy s.request c a, none⟩,
        r.order ++ if c.locks a then [(i, s.policy.isPatient)] else []⟩ cur' := by
  obtain ⟨hn, hgood, t, hd, hk, hp, hm⟩ := h.knocks hi hφ ha hc hs
  obtain ⟨hcur, hothers⟩ := h.ticket_ne hi hd
  rw [hφ]
  cases hk with
  | enters l hl hnext hb hfree hh =>
    -- whoever is inside holds the latch under another ticket, so nobody is
    have hnone : cur = none := by
      cases hu : cur with
      | none => rfl
      | some u =>
        rw [(h.inside u hu).latch] at hfree
        rcases hfree with hf | hf
        · cases hf
        · exact absurd (Option.some.inj hf) (hcur u hu)
    subst hnone
    have checked : Limits.checkKey slot.key.text = .ok () := by
      rcases hgood with hk | ⟨a', ha', hf⟩
      · exact hk
      · cases ha'
        rw [hl] at hf
        cases hf
    rw [hl, hnext]
    refine ⟨_, h.enter hi hn hb checked hh hd.bound hd.tickets hd.ledger hp ?_ hothers⟩
    intro x hx
    rcases hm x hx with rfl | hx
    · exact hd.bound
    · exact Nat.lt_of_lt_of_le (h.members x hx) hd.tickets
  | isRefused e hl hnext hh ho =>
    rw [hl, hnext]
    refine ⟨cur, ?_⟩
    simp only [Bool.false_eq_true, if_false, List.append_nil]
    exact h.stay (h.quiet_of_draws hd hh ho hp hm) hi hn ⟨e, rfl⟩

theorem door_block {x : Ticket × Local.Waiting} (h : Tidy spare slot l₀ r cur)
    (hi : r.seats[i]? = some s) (hφ : s.phase = .door spare)
    (ha : s.phase.Asks s.policy s.request c) (hc : ∀ x ∈ s.waits, x.1 = c)
    (hs : r.desk.Serves spare slot.key (s.waits.map (·.2)) d c (.blocked (some x))) :
    Tidy spare slot l₀
      ⟨d, r.seats.set i ⟨s.policy, s.request, s.phase, some (c, x)⟩, r.order⟩ cur := by
  obtain ⟨hn, hgood, t, hd, hk, hp, hm⟩ := h.knocks hi hφ ha hc hs
  obtain ⟨hcur, hothers⟩ := h.ticket_ne hi hd
  cases hk with
  | waits owner deadline hw hh ho =>
    have checked : Limits.checkKey slot.key.text = .ok () := by
      rcases hgood with hk | ⟨a', ha', -⟩
      · exact hk
      · cases ha'
    refine (h.quiet (h.quiet_of_draws hd hh ho hp hm)).reseat hi hn ?_ ?_ ?_
    · rw [hφ]
      cases spare <;> trivial
    · rintro y ⟨⟩
      exact ⟨checked, hφ, hd.bound, hcur, owner, deadline, hw, rfl⟩
    · rintro y ⟨⟩ j s' y' hj hs'' hy'
      exact hothers j s' y' hj hs'' hy'

end

/-! ### The work under the lock -/

theorem waits_eq_none (h : Tidy spare slot l₀ r cur) (hi : r.seats[i]? = some s)
    (hh : s.phase.hold? = some l) : s.waits = none := by
  cases hw : s.waits with
  | none => rfl
  | some x =>
    rw [(h.inLine i s x hi hw).phase] at hh
    cases spare <;> cases hh

theorem drawn_of_early {φ : Phase} {o : List (Nat × Bool)} {b : Bool}
    (h : Tidy spare slot l₀ r (some ⟨i, t, φ⟩)) (ho : r.order = o ++ [(i, b)])
    (he : φ.isEarly = true) :
    Drawn l₀ slot r.desk.ledger (min (patients o) (Policy.ranked (l₀.query slot)).length) := by
  have := h.drawn
  simpa [spent, he, ho] using this

theorem drawn_of_late {φ : Phase} (h : Tidy spare slot l₀ r (some ⟨i, t, φ⟩))
    (he : φ.isEarly = false) :
    Drawn l₀ slot r.desk.ledger
      (min (patients r.order) (Policy.ranked (l₀.query slot)).length) := by
  have := h.drawn
  simpa [spent, he] using this

/-- The candidates that are left are taken to the pool. -/
theorem query (h : Tidy spare slot l₀ r cur) (hi : r.seats[i]? = some s)
    (hφ : s.phase = .locked l) :
    ∃ cur', Tidy spare slot l₀
      ⟨r.desk, r.seats.set i ⟨s.policy, s.request,
        .ofQuery l (.ok (r.desk.ledger.query s.request.slot)), none⟩, r.order⟩ cur' := by
  obtain ⟨t, o, rfl, ho, -, -, -, hf⟩ := h.holding hi (by rw [hφ]; rfl)
  have hd := h.drawn_of_early ho (by rw [hφ]; rfl)
  have hp := h.pool
  rw [hφ] at hf hp
  rw [Ledger.query_congr (h.keyed i s hi)]
  have hrest := hd.rest
  have hnil := hd.query_eq_nil
  generalize hF : Policy.ranked (l₀.query slot) = F at *
  cases hq : r.desk.ledger.query slot with
  | nil =>
    -- Those who were granted the lock before have taken all there was.
    have hlen : F.length ≤ patients o := by
      have := List.getElem?_eq_none_iff.1 (hnil.1 hq)
      omega
    have hshare : share F l₀.nextId s.policy (patients o) = .error .noCandidates := by
      rw [share, List.getElem?_eq_none hlen]
    refine ⟨_, h.proceed hi ho (by rw [hφ]; rfl) rfl rfl rfl (Nat.le_refl _) ?_ hp ?_⟩
    · rw [hF]
      exact ⟨hf, hshare.symm⟩
    · have hge : patients o ≤ patients r.order := by
        rw [ho, patients_concat]
        exact Nat.le_add_right _ _
      rw [hF]
      rw [Nat.min_eq_right hlen] at hd
      show Drawn l₀ slot r.desk.ledger (min (patients r.order) F.length)
      rw [Nat.min_eq_right (Nat.le_trans hlen hge)]
      exact hd
  | cons c cs =>
    have hlen : patients o < F.length := by
      refine Nat.lt_of_not_le fun hle => ?_
      have := hnil.2 (List.getElem?_eq_none (by omega))
      rw [hq] at this
      cases this
    refine ⟨_, h.proceed hi ho (by rw [hφ]; rfl) rfl rfl rfl (Nat.le_refl _) ?_ hp ?_⟩
    · rw [hF]
      refine ⟨hf, rfl, nofun, ?_⟩
      rw [← hq, hrest, Nat.min_eq_left (Nat.le_of_lt hlen)]
    · rw [hF]
      exact hd

/-- The pool is rested, so it answers at once: with all its permits, unless the wait is too long. -/
theorem permits {cs : List Candidate} {b : Bool} {look : Look (Except GuardError Bool) Slip}
    (h : Tidy spare slot l₀ r cur) (hi : r.seats[i]? = some s) (hφ : s.phase = .pooling l cs b)
    (hs : r.desk.Serves spare slot.key (s.waits.map (·.2)) d
      (.permits b s.request.slot.key (Phase.poolPlan s.policy cs) (Phase.poolDemand s.policy cs))
      look) :
    ∃ a cur', look = .answered a ∧ Tidy spare slot l₀
      ⟨d, r.seats.set i ⟨s.policy, s.request, .ofPermits s.policy l cs b a, none⟩, r.order⟩
      cur' := by
  have hh : s.phase.hold? = some l := by rw [hφ]; rfl
  obtain ⟨t, o, rfl, ho, -, hk, -, hf⟩ := h.holding hi hh
  have hd := h.drawn_of_early ho (by rw [hφ]; rfl)
  have hp := h.pool
  rw [hφ] at hf hp
  obtain ⟨hl, rfl, hne, hcs⟩ := hf
  rw [h.waits_eq_none hi hh, Option.map_none, h.keyed i s hi] at hs
  obtain ⟨rfl, rfl⟩ := hs
  have hlt : patients o < (Policy.ranked (l₀.query slot)).length := by
    refine Nat.lt_of_not_le fun hle => hne ?_
    have := ranked_perm cs
    rw [hcs, List.drop_eq_nil_of_le hle] at this
    exact this.symm.eq_nil
  -- Whatever the pool answers, nothing but the pools has changed.
  have hstep {a : Except GuardError Bool} {d : Desk} {ψ : Phase}
      (hψ : Phase.ofPermits s.policy l cs false a = ψ) (hhold : ψ.hold? = some l)
      (hother : r.desk.store.PoolsOnly d.store) (htickets : d.tickets = r.desk.tickets + 1)
      (hledger : d.ledger = r.desk.ledger)
      (fits : ψ.Fits spare ((Policy.ranked (l₀.query slot)).drop (patients o))
        (share (Policy.ranked (l₀.query slot)) l₀.nextId s.policy (patients o)) s)
      (pool : if ψ.hasPermits then d.store.Lent slot.key.text else d.store.Rested slot.key.text)
      (hspent : (if ψ.isEarly then patients o else patients r.order) = patients o) :
      Tidy spare slot l₀
        ⟨d, r.seats.set i ⟨s.policy, s.request, .ofPermits s.policy l cs false a, none⟩, r.order⟩
        (some ⟨i, t, ψ⟩) := by
    rw [hψ]
    refine h.proceed hi ho hh hhold hother.latch (by rw [hother.holders])
      (by rw [htickets]; exact Nat.le_succ _) fits pool ?_
    rw [hspent, hledger]
    exact hd
  have hperm := Local.Store.begin_permits r.desk.tickets r.desk.now (Phase.poolPlan s.policy cs)
    s.policy.settings.permitWait hp hk (permitCount_pos hne) (permitCount_le cs)
  obtain ⟨c, hc⟩ : ∃ c, (Policy.ranked (l₀.query slot))[patients o]? = some c :=
    ⟨_, List.getElem?_eq_getElem hlt⟩
  rcases hperm with ⟨hw, hb⟩ | ⟨hw, s', hlent, hother, hb⟩
  · have himp : s.policy.isPatient = false := decide_eq_false (Nat.not_le_of_lt hw)
    have hb' : r.desk.store.begin r.desk.tickets r.desk.now (.permits slot.key.text
        (Phase.poolPlan s.policy cs) (Phase.poolDemand s.policy cs)) = _ := hb
    rw [Desk.attempt_done hb']
    refine ⟨.error (.invalid .waitTooLong), _, rfl, hstep rfl rfl ⟨rfl, rfl⟩ rfl rfl ?_ hp ?_⟩
    · refine ⟨hl, ?_⟩
      simp [share, hc, himp, GuardError.toAdmission]
    · show patients r.order = patients o
      rw [ho, patients_concat, himp]
      rfl
  · have hpat : s.policy.isPatient = true := decide_eq_true hw
    have hb' : r.desk.store.begin r.desk.tickets r.desk.now (.permits slot.key.text
        (Phase.poolPlan s.policy cs) (Phase.poolDemand s.policy cs)) = _ := hb
    rw [Desk.attempt_done hb']
    have hoffer : Phase.ofPermits s.policy l cs false (.ok true) =
        .walking l false ((Policy.ranked (l₀.query slot)).drop (patients o)) := by
      rw [List.drop_eq_getElem_cons hlt] at hcs ⊢
      simp only [Phase.ofPermits, hcs, Phase.offer]
    exact ⟨.ok true, _, rfl, hstep hoffer rfl hother rfl rfl ⟨hl, rfl, rfl, hpat⟩ hlent rfl⟩

/-- The first candidate that is left is free, so it is taken. -/
theorem create {b : Bool} {c : Candidate} {rest : List Candidate} (now : DateTime)
    (h : Tidy spare slot l₀ r cur) (hi : r.seats[i]? = some s)
    (hφ : s.phase = .walking l b (c :: rest)) :
    ∃ cur', Tidy spare slot l₀
      ⟨{ r.desk with ledger := (r.desk.ledger.create (.take c s.request.user now)).1 },
        r.seats.set i ⟨s.policy, s.request, .ofCreate l b c rest
          (r.desk.ledger.create (.take c s.request.user now)).2, none⟩, r.order⟩ cur' := by
  have hh : s.phase.hold? = some l := by rw [hφ]; rfl
  obtain ⟨t, o, rfl, ho, -, -, -, hf⟩ := h.holding hi hh
  have hd := h.drawn_of_early ho (by rw [hφ]; rfl)
  have hp := h.pool
  rw [hφ] at hf hp
  obtain ⟨hl, rfl, hrest, hpat⟩ := hf
  have hc : (Policy.ranked (l₀.query slot))[patients o]? = some c := by
    rw [← List.head?_drop, ← hrest]
    rfl
  have hlt := (List.getElem?_eq_some_iff.1 hc).1
  rw [Nat.min_eq_left (Nat.le_of_lt hlt)] at hd
  have hid : (Occupancy.take c s.request.user now).candidate = c.id := rfl
  obtain ⟨hcreate, hd'⟩ := hd.take hc hid
  rw [hcreate]
  refine ⟨_, h.proceed hi ho hh rfl rfl rfl (Nat.le_refl _) ⟨hl, rfl, ?_⟩ hp ?_⟩
  · simp [share, hc, hpat]
  · have : patients r.order = patients o + 1 := by
      rw [ho, patients_concat, hpat]
      rfl
    show Drawn l₀ slot _ (min (patients r.order) _)
    rw [this, Nat.min_eq_left hlt]
    exact hd'

/-- The permits are back before the lock is let go. -/
theorem giveBack {b : Bool} {found : Found} (h : Tidy spare slot l₀ r cur)
    (hi : r.seats[i]? = some s) (hφ : s.phase = .walked l b found) :
    b = false ∧ ∃ cur', Tidy spare slot l₀
      ⟨{ r.desk with store := (r.desk.store.giveBack s.request.slot.key.text r.desk.now).1 },
        r.seats.set i ⟨s.policy, s.request, .leaving l found, none⟩, r.order⟩ cur' := by
  have hh : s.phase.hold? = some l := by rw [hφ]; rfl
  obtain ⟨t, o, rfl, ho, -, -, -, hf⟩ := h.holding hi hh
  have hd := h.drawn_of_late (by rw [hφ]; rfl)
  have hp := h.pool
  rw [hφ] at hf hp
  obtain ⟨hl, hb, hfound⟩ := hf
  rw [h.keyed i s hi]
  obtain ⟨hrest, hother⟩ := Local.Store.giveBack_of_lent r.desk.now hp
  exact ⟨hb, _, h.proceed hi ho hh rfl hother.latch (by rw [hother.holders]) (Nat.le_refl _)
    ⟨hl, hfound⟩ hrest hd⟩

theorem isHeldBy {owner : Ulid} {found : Found} (h : Tidy spare slot l₀ r cur)
    (hi : r.seats[i]? = some s) (hφ : s.phase = .leaving (.fair owner) found) :
    ∃ cur', Tidy spare slot l₀
      ⟨r.desk, r.seats.set i ⟨s.policy, s.request, .ofIsHeldBy s.request owner found
        (.ok (r.desk.store.isHeldBy s.request.slot.key.text owner)), none⟩, r.order⟩ cur' := by
  have hh : s.phase.hold? = some (.fair owner) := by rw [hφ]; rfl
  obtain ⟨t, o, rfl, ho, hb, -, -, hf⟩ := h.holding hi hh
  have hd := h.drawn_of_late (by rw [hφ]; rfl)
  have hp := h.pool
  rw [hφ] at hf hp
  rw [h.keyed i s hi, (Local.Store.unlock_of_holder hb.2).1]
  exact ⟨_, h.proceed hi ho hh rfl rfl rfl (Nat.le_refl _) ⟨hb.1, hf.2⟩ hp hd⟩

theorem unlock {owner : Ulid} {found : Found} (h : Tidy spare slot l₀ r cur)
    (hi : r.seats[i]? = some s) (hφ : s.phase = .unlocking owner found) :
    Tidy spare slot l₀
      ⟨{ r.desk with store := (r.desk.store.unlock s.request.slot.key.text owner).1 },
        r.seats.set i ⟨s.policy, s.request, .ended (verdict s.request found (.fair owner)), none⟩,
        r.order⟩ none := by
  have hh : s.phase.hold? = some (.fair owner) := by rw [hφ]; rfl
  obtain ⟨t, o, rfl, ho, hb, -, -, hf⟩ := h.holding hi hh
  rw [hφ] at hf
  obtain ⟨rfl, howner⟩ := hb
  obtain ⟨-, -, hpools, hlatch⟩ := Local.Store.unlock_of_holder howner
  rw [h.keyed i s hi]
  refine h.depart hi ho (by rw [hφ]; rfl) (by rw [hφ]; rfl) ?_ (fun x hx => ?_) rfl rfl hpools
  · rw [← hf.2]
    rfl
  · have hx' : x ∈ (((r.desk.store.unlock slot.key.text owner).1).latch slot.key.text).members := hx
    rw [hlatch] at hx'
    exact Local.Latch.members_leave hx'

theorem spareUnlock {held : Held} {found : Found} (h : Tidy spare slot l₀ r cur)
    (hi : r.seats[i]? = some s) (hφ : s.phase = .leaving (.spare held) found) :
    Tidy spare slot l₀
      ⟨{ r.desk with
          store := (r.desk.store.leaveLatch (Local.Store.lockName held.key) held.ticket).1 },
        r.seats.set i ⟨s.policy, s.request, .ended (verdict s.request found (.spare held)), none⟩,
        r.order⟩ none := by
  have hh : s.phase.hold? = some (.spare held) := by rw [hφ]; rfl
  obtain ⟨t, o, rfl, ho, hb, -, -, hf⟩ := h.holding hi hh
  rw [hφ] at hf
  obtain ⟨rfl, rfl⟩ := hb
  refine h.depart hi ho (by rw [hφ]; rfl) (by rw [hφ]; rfl) ?_ (fun x hx => ?_) rfl rfl
    Local.Store.pools_leaveLatch
  · rw [← hf.2]
    show (found.mapError unprocessable).map _ = _
    rw [hf.2, share_unprocessable]
  · have hx' : x ∈ ((r.desk.store.leaveLatch (Local.Store.lockName slot.key.text) t).1.latch
      (Local.Store.lockName slot.key.text)).members := hx
    rw [Local.Store.latch_leaveLatch] at hx'
    exact Local.Latch.members_leave hx'

/-! ### All steps -/

theorem pass {c : Call} {a : c.Answer} (h : Tidy spare slot l₀ r cur) (hi : r.seats[i]? = some s)
    (ha : s.phase.Asks s.policy s.request c) (hc : c.stage? = some 0 ∨ c.stage? = some 1)
    (hd : r.desk.Aside spare slot.key d) :
    Tidy spare slot l₀
      ⟨d, r.seats.set i ⟨s.policy, s.request, s.phase.next s.policy s.request c a, none⟩,
        r.order⟩ cur := by
  have hn : i ∉ r.order.map (·.1) := by
    refine h.not_granted hi fun _ _ => ?_
    generalize s.phase = φ at ha
    cases ha <;> first | exact id | simp [Call.stage?] at hc
  refine h.stay (hd.quiet h.members) hi hn ?_
  have hm := ha.moves a
  generalize s.phase.next s.policy s.request c a = ψ at hm
  generalize s.phase = φ at hm
  cases hm <;> first | trivial | exact ⟨_, rfl⟩ | simp [Call.stage?] at hc

/-- A fair lock that cannot be reached is given up or its substitute is asked. -/
theorem giveUp {u : Ulid} {wait : Duration} {look : Look (Except GuardError Bool) Slip}
    (h : Tidy true slot l₀ r cur) (hi : r.seats[i]? = some s) (hφ : s.phase = .admitted)
    (hs : r.desk.Serves true slot.key (s.waits.map (·.2)) d (.lock s.request.slot.key u wait)
      look) :
    ∃ text, look = .answered (.error (.unavailable text)) ∧ Tidy true slot l₀
      ⟨d, r.seats.set i ⟨s.policy, s.request,
        .ofLock s.policy u (.error (.unavailable text)), none⟩, r.order⟩ cur := by
  obtain ⟨rfl, text, hl⟩ := hs
  have hn : i ∉ r.order.map (·.1) := h.not_granted hi fun _ _ => by rw [hφ]; exact id
  refine ⟨text, hl, h.reseat hi hn ?_ (fun _ hy => nomatch hy) (fun _ hy => nomatch hy)⟩
  unfold Phase.ofLock
  dsimp only
  split
  · rfl
  · exact ⟨_, rfl⟩

section

variable {c : Call}

theorem locks_of_wants {a : c.Answer} (hc : c.wants? = none) : c.locks a = false := by
  cases c <;> first | rfl | cases hc

theorem answer_inside {a : c.Answer} (h : Tidy spare slot l₀ r cur) (hi : r.seats[i]? = some s)
    (hh : s.phase.hold? = some l) (ha : s.phase.Asks s.policy s.request c)
    (hs : r.desk.Serves spare slot.key (s.waits.map (·.2)) d c (.answered a)) :
    ∃ cur', Tidy spare slot l₀
      ⟨d, r.seats.set i ⟨s.policy, s.request, s.phase.next s.policy s.request c a, none⟩,
        r.order⟩ cur' := by
  generalize hφ : s.phase = φ at ha hh ⊢
  cases ha with
  | flag => cases hh
  | rate b => cases hh
  | lock owner => cases hh
  | spareLock => cases hh
  | query l =>
    obtain ⟨rfl, hl⟩ := hs
    cases hl
    exact h.query hi hφ
  | permits l cs b =>
    obtain ⟨a', cur', hl, ht⟩ := h.permits hi hφ hs
    cases hl
    exact ⟨cur', ht⟩
  | create l b c rest now =>
    obtain ⟨rfl, hl⟩ := hs
    cases hl
    exact h.create now hi hφ
  | giveBack l b found =>
    obtain ⟨rfl, ht⟩ := h.giveBack hi hφ
    obtain ⟨rfl, -⟩ := hs
    exact ht
  | isHeldBy owner found =>
    obtain ⟨rfl, hl⟩ := hs
    cases hl
    exact h.isHeldBy hi hφ
  | spareUnlock held found =>
    obtain ⟨rfl, -⟩ := hs
    exact ⟨_, h.spareUnlock hi hφ⟩
  | unlock owner found =>
    obtain ⟨rfl, -⟩ := hs
    exact ⟨_, h.unlock hi hφ⟩

theorem spare_of_lockLost (h : Tidy spare slot l₀ r cur) (hi : r.seats[i]? = some s)
    (hφ : s.phase = .lockLost) : spare = true := by
  have hn : i ∉ r.order.map (·.1) := h.not_granted hi fun _ _ => by rw [hφ]; exact id
  have := h.outside i s hi hn
  rwa [hφ] at this

theorem answer_outside {a : c.Answer} (h : Tidy spare slot l₀ r cur) (hi : r.seats[i]? = some s)
    (hh : s.phase.hold? = none) (ha : s.phase.Asks s.policy s.request c)
    (hc : ∀ x ∈ s.waits, x.1 = c)
    (hs : r.desk.Serves spare slot.key (s.waits.map (·.2)) d c (.answered a)) :
    ∃ cur', Tidy spare slot l₀
      ⟨d, r.seats.set i ⟨s.policy, s.request, s.phase.next s.policy s.request c a, none⟩,
        r.order ++ if c.locks a then [(i, s.policy.isPatient)] else []⟩ cur' := by
  have other (hw : c.wants? = none) (ht : ∃ cur', Tidy spare slot l₀
      ⟨d, r.seats.set i ⟨s.policy, s.request, s.phase.next s.policy s.request c a, none⟩,
        r.order⟩ cur') :
      ∃ cur', Tidy spare slot l₀
        ⟨d, r.seats.set i ⟨s.policy, s.request, s.phase.next s.policy s.request c a, none⟩,
          r.order ++ if c.locks a then [(i, s.policy.isPatient)] else []⟩ cur' := by
    rw [locks_of_wants hw]
    simpa using ht
  have ha' := ha
  obtain ⟨φ, hφ⟩ : ∃ φ, s.phase = φ := ⟨_, rfl⟩
  rw [hφ] at ha' hh
  cases ha' with
  | flag => exact other rfl ⟨cur, h.pass hi ha (.inl rfl) hs.1⟩
  | rate b => exact other rfl ⟨cur, h.pass hi ha (.inr rfl) hs.1⟩
  | lock owner =>
    cases spare with
    | true =>
      obtain ⟨text, hl, ht⟩ := h.giveUp hi hφ hs
      cases hl
      rw [hφ]
      have := ht
      rw [← List.append_nil r.order] at this
      exact ⟨cur, this⟩
    | false => exact h.door_answer hi hφ ha hc hs
  | spareLock =>
    obtain rfl := h.spare_of_lockLost hi hφ
    exact h.door_answer hi hφ ha hc hs
  | _ => cases hh

/-- A seat has to wait. Only the lock makes anybody wait. -/
theorem block {x : Ticket × Local.Waiting} (h : Tidy spare slot l₀ r cur)
    (hi : r.seats[i]? = some s) (ha : s.phase.Asks s.policy s.request c)
    (hc : ∀ x ∈ s.waits, x.1 = c)
    (hs : r.desk.Serves spare slot.key (s.waits.map (·.2)) d c (.blocked (some x))) :
    Tidy spare slot l₀ ⟨d, r.seats.set i ⟨s.policy, s.request, s.phase, some (c, x)⟩, r.order⟩
      cur := by
  have ha' := ha
  obtain ⟨φ, hφ⟩ : ∃ φ, s.phase = φ := ⟨_, rfl⟩
  rw [hφ] at ha'
  cases ha' with
  | flag => cases hs.2.choose_spec
  | rate b => cases hs.2.choose_spec
  | lock owner =>
    cases spare with
    | true =>
      obtain ⟨text, hl, -⟩ := h.giveUp hi hφ hs
      cases hl
    | false => exact h.door_block hi hφ ha hc hs
  | spareLock =>
    obtain rfl := h.spare_of_lockLost hi hφ
    exact h.door_block hi hφ ha hc hs
  | query l => cases hs.2
  | permits l cs b =>
    obtain ⟨a, cur', hl, -⟩ := h.permits hi hφ hs
    cases hl
  | create l b c rest now => cases hs.2
  | giveBack l b found =>
    obtain ⟨rfl, -⟩ := h.giveBack hi hφ
    cases hs.2
  | isHeldBy owner found => cases hs.2
  | spareUnlock held found => cases hs.2
  | unlock owner found => cases hs.2

end

theorem step {r' : Room} (h : Tidy spare slot l₀ r cur) (hs : Room.Step spare slot.key r r') :
    ∃ cur', Tidy spare slot l₀ r' cur' := by
  cases hs with
  | aside d hd => exact ⟨cur, h.quiet (hd.quiet h.members)⟩
  | arrive p q hq => exact ⟨cur, h.arrive p hq⟩
  | answer i s c a d hi ha hc hs =>
    cases hh : s.phase.hold? with
    | none => exact h.answer_outside hi hh ha hc hs
    | some l =>
      have hw : c.wants? = none := by
        generalize s.phase = φ at ha hh
        cases ha <;> first | rfl | cases hh
      rw [locks_of_wants hw]
      simpa using h.answer_inside hi hh ha hs
  | block i s c x d hi ha hc hs => exact ⟨cur, h.block hi ha hc hs⟩

end Room.Tidy

theorem Room.Reach.tidy (h : Room.Reach spare slot.key d r)
    (hd : Ledger.Distinct d.ledger.rows)
    (hm : ∀ t ∈ (d.store.latch (latchName spare slot.key)).members, t < d.tickets)
    (hr : d.store.Rested slot.key.text) : ∃ cur, Room.Tidy spare slot d.ledger r cur := by
  induction h with
  | start => exact ⟨none, .start hd hm hr⟩
  | step _ hs ih =>
    obtain ⟨cur, ht⟩ := ih
    exact ht.step hs

end

end Turnstile.Admission
