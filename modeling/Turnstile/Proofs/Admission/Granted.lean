import Turnstile.Proofs.Admission.Fifo

/-!
# Permits are granted at the first look

One act at a time: a task has its turn, a task is dropped and leaves tasks behind (`Forfeits`),
reservations are marked, time passes. Each keeps the machine fair and hands latches over only where
the pool is at rest (`Keeps`). Over a whole run it follows that nobody is refused permits and that
nobody waits for them (`run_granted`).
-/

namespace Turnstile.Admission.Fifo

open Schedule

variable {E : Surroundings} {m m' : Machine (Hall.host E)} {hands : Nat → Hands} {i j : Nat}
  {t : Schedule.Task (Hall.host E)} {st : TaskState (Hall.host E)} {ready : List Nat} {σ : Hall E}

/-- The machine stays fair, and a latch gets another holder only where the pool is at rest. -/
def Keeps (m m' : Machine (Hall.host E)) : Prop :=
  (∃ hands, Fair m' hands) ∧ Passes m.state.store m'.state.store

theorem Keeps.of_store (h : Fair m' hands) (hs : m'.state.store = m.state.store) : Keeps m m' :=
  ⟨⟨hands, h⟩, .of_holder fun key => by rw [hs]⟩

theorem Keeps.readies {m'' : Machine (Hall.host E)} (h : Keeps m m') (hr : m'.Readies m'') :
    Keeps m m'' := by
  obtain ⟨⟨hands, hf⟩, hp⟩ := h
  refine ⟨⟨hands, hf.readies hr⟩, ?_⟩
  obtain ⟨l, rfl, -⟩ := hr
  exact hp

/-! ## Tasks that are dropped -/

theorem forfeitAll_eq (m : Machine (Hall.host E)) (owed : List Release) :
    m.forfeitAll owed = { m with
      tasks := m.tasks ++ owed.map fun r => ⟨.fresh r.code [], none, false⟩
      ready := m.ready ++ List.range' m.tasks.length owed.length } := by
  induction owed generalizing m with
  | nil => simp [Machine.forfeitAll]
  | cons r owed ih =>
    show (m.spawn none r.code []).forfeitAll owed = _
    rw [ih]
    simp [Machine.spawn, List.range'_succ]

/-- The task `i` is dropped, and tasks that release what it owed are ready after all others. -/
structure Forfeits (m m' : Machine (Hall.host E)) (i : Nat) (owed : List Release) : Prop where
  tasks : m'.tasks = (m.setTask i .dropped).tasks ++
    owed.map fun r => ⟨.fresh r.code [], none, false⟩
  ready : m'.ready = m.ready ++ List.range' m.tasks.length owed.length
  running : m'.running = m.running
  front : m'.front = m.front

namespace Forfeits

variable {owed : List Release} {r : Release} {d : Nat}

theorem length_tasks (h : Forfeits m m' i owed) :
    m'.tasks.length = m.tasks.length + owed.length := by
  rw [h.tasks, List.length_append, Machine.length_setTask, List.length_map]

/-- All tasks but the one that is dropped are as before. -/
theorem old (h : Forfeits m m' i owed) (hji : j ≠ i) (hj : m.tasks[j]? = some t) :
    m'.tasks[j]? = some t := by
  have hlt : j < (m.setTask i .dropped).tasks.length := by
    rw [Machine.length_setTask]
    exact (List.getElem?_eq_some_iff.1 hj).1
  rw [h.tasks, List.getElem?_append_left hlt, Machine.getElem?_setTask_of_ne hji]
  exact hj

theorem new (h : Forfeits m m' i owed) (hd : owed[d]? = some r) :
    m'.tasks[m.tasks.length + d]? = some ⟨.fresh r.code [], none, false⟩ := by
  have hlen : (m.setTask i .dropped).tasks.length = m.tasks.length := Machine.length_setTask
  rw [h.tasks, List.getElem?_append_right (by omega), hlen, Nat.add_sub_cancel_left,
    List.getElem?_map, hd]
  rfl

theorem task_cases (h : Forfeits m m' i owed) (hj : m'.tasks[j]? = some t) :
    (j = i ∧ t.state = .dropped ∧
      ∃ t', m.tasks[i]? = some t' ∧ t.tag = t'.tag ∧ t.stopped = t'.stopped) ∨
    (j ≠ i ∧ j < m.tasks.length ∧ m.tasks[j]? = some t) ∨
    ∃ d r, j = m.tasks.length + d ∧ owed[d]? = some r ∧
      t = ⟨.fresh r.code [], none, false⟩ := by
  rw [h.tasks] at hj
  rcases getElem?_append_cases hj with hj | ⟨d, rfl, hd⟩
  · rcases Machine.getElem?_setTask_cases hj with hj | ⟨hji, hj⟩
    · exact .inl hj
    · exact .inr (.inl ⟨hji, (List.getElem?_eq_some_iff.1 hj).1, hj⟩)
  · rw [List.getElem?_map] at hd
    obtain ⟨r, hr, rfl⟩ := Option.map_eq_some_iff.1 hd
    exact .inr (.inr ⟨d, r, by rw [Machine.length_setTask], hr, rfl⟩)

theorem slip_eq (h : Forfeits m m' i owed) (hi : i < m.tasks.length) :
    slip m' = Function.update (slip m) i none := by
  refine (slip_append h.tasks ?_).trans (slip_setTask hi)
  simp [slip?]

/-- Who was ahead of another task is still ahead of it. -/
theorem ahead_old {a b : Nat} (h : Forfeits m m' i owed) (hbi : b ≠ i) (hab : Ahead m a b) :
    Ahead m' a b := by
  obtain ⟨⟨t, ht, hf⟩, hab⟩ := hab
  refine ⟨⟨t, h.old hbi ht, hf⟩, ?_⟩
  rw [h.running, h.ready]
  exact hab.imp_right fun hs => hs.trans (List.sublist_append_left ..)

/-- Two releases are made in the order in which they are forfeited. -/
theorem ahead_new (h : Forfeits m m' i owed) (htwo : owed.length = 2) :
    Ahead m' m.tasks.length (m.tasks.length + 1) := by
  have hd : 1 < owed.length := by omega
  refine ⟨⟨_, h.new (List.getElem?_eq_getElem hd), _, _, rfl⟩, .inr ?_⟩
  rw [h.ready, htwo]
  exact List.sublist_append_right ..

theorem nodup_ready (h : Forfeits m m' i owed) (hnodup : m.ready.Nodup)
    (hbound : ∀ j ∈ m.ready, j < m.tasks.length) : m'.ready.Nodup := by
  rw [h.ready]
  refine List.nodup_append.2 ⟨hnodup, List.nodup_range', fun a ha b hb => ?_⟩
  have hlt := hbound a ha
  have hge := (List.mem_range'_1.1 hb).1
  omega

theorem lt_of_mem_ready (h : Forfeits m m' i owed) (hbound : ∀ j ∈ m.ready, j < m.tasks.length)
    (hj : j ∈ m'.ready) : j < m'.tasks.length := by
  rw [h.ready] at hj
  rw [h.length_tasks]
  rcases List.mem_append.1 hj with hj | hj
  · have hlt := hbound j hj
    omega
  · exact (List.mem_range'_1.1 hj).2

end Forfeits

namespace Fair

/-- A task that is dropped leaves its hands to tasks that release what it owed. -/
theorem forfeit (h : Fair m hands) (hi : m.tasks[i]? = some t) (ht : t.state ≠ .running)
    (hx : (hands i).Whole) (hahead : ∀ j k o, (hands i).lock? = some (k, o) → ¬ Ahead m j i)
    (hm : Forfeits m m' i (hands i).owed)
    (hc : Clean hands (Function.update (slip m) i none) (Ahead m) m'.state.store m'.tickets) :
    Fair m' (inherit hands i m.tasks.length (hands i).owed) := by
  have hlt : i < m.tasks.length := (List.getElem?_eq_some_iff.1 hi).1
  refine ⟨?clean, ?fits, ?refused, ?beyond, ?stopped, ?running, hm.front.trans h.front,
    hm.nodup_ready h.nodup h.bound, fun j hj => hm.lt_of_mem_ready h.bound hj⟩
  case clean =>
    rw [hm.slip_eq hlt]
    exact hc.inherit hx hlt h.beyond hahead hm.ahead_new fun _ _ _ _ hbi => hm.ahead_old hbi
  case fits =>
    intro j t' hj
    rw [hm.running]
    rcases hm.task_cases hj with ⟨rfl, hst, -⟩ | ⟨hji, hlt', hj⟩ | ⟨d, r, rfl, hr, rfl⟩
    · rw [hst]
      refine .dropped ?_
      unfold inherit
      rw [if_neg (Nat.not_le.2 hlt), if_pos rfl]
    · rw [inherit_old hlt' hji]
      exact h.fits j t' hj
    · rw [inherit_new, hr]
      exact .fresh r.code (release_careful (List.mem_of_getElem? hr)) fun hne => absurd rfl hne
  case refused =>
    intro j
    rcases inherit_cases hands i m.tasks.length (hands i).owed j with
      he | ⟨-, -, he⟩ | ⟨d, r, -, -, he⟩
    · rw [he]
      rfl
    · rw [he]
      exact h.refused j
    · rw [he]
      cases r <;> rfl
  case beyond =>
    intro j hj
    rw [hm.length_tasks] at hj
    obtain ⟨d, rfl⟩ := Nat.exists_eq_add_of_le (Nat.le_trans (Nat.le_add_right _ _) hj)
    rw [inherit_new, List.getElem?_eq_none (by omega)]
    rfl
  case stopped =>
    intro j t' hj hs
    rcases hm.task_cases hj with ⟨rfl, -, t', ht', htag, hstop⟩ | ⟨-, -, hj⟩ | ⟨d, r, -, -, rfl⟩
    · rw [htag]
      exact h.stopped j t' ht' (hstop ▸ hs)
    · exact h.stopped j t' hj hs
    · cases hs
  case running =>
    intro r hr
    rw [hm.running] at hr
    obtain ⟨t', ht', hst⟩ := h.running r hr
    refine ⟨t', hm.old ?_ ht', hst⟩
    rintro rfl
    obtain rfl := Option.some.inj (hi.symm.trans ht')
    exact ht hst

theorem clean_of_slip (h : Fair m hands) (hslip : slip m i = none) :
    Clean hands (Function.update (slip m) i none) (Ahead m) m.state.store m.tickets := by
  have hsame : Function.update (slip m) i none = slip m :=
    Function.update_eq_self_iff.2 hslip.symm
  rw [hsame]
  exact h.clean

theorem drop_fresh {p : (Hall.host E).Code} {owed : List Release} (h : Fair m hands)
    (hi : m.tasks[i]? = some t) (hst : t.state = .fresh p owed) (htag : t.tag ≠ none) :
    Keeps m (m.drop i (.fresh p owed)) := by
  have hfits := h.fits i t hi
  have hslip := slip_eq hi
  rw [hst] at hfits hslip
  cases hfits with
  | fresh p _ hx =>
    have hempty := hx htag
    have hnone : (hands i).owed = [] := by
      rw [hempty]
      rfl
    have hdropped :
        Fair (m.setTask i .dropped) (inherit hands i m.tasks.length (hands i).owed) := by
      refine h.forfeit hi (by rw [hst]; exact nofun) ?_ ?_ ?_ (h.clean_of_slip hslip)
      · rw [hempty]
        exact nofun
      · rw [hempty]
        exact nofun
      · rw [hnone]
        exact ⟨(List.append_nil _).symm, (List.append_nil _).symm, rfl, rfl⟩
    exact .of_store hdropped rfl

theorem drop_blocked {c : Call} {w : Hall.Pending E} {k : c.Answer → (Hall.host E).Code}
    {owed : List Release} {since : Nat} (h : Fair m hands) (hi : m.tasks[i]? = some t)
    (hst : t.state = .blocked c w k owed since) :
    Keeps m (m.drop i (.blocked c w k owed since)) := by
  have hfits := h.fits i t hi
  have hslip := slip_eq hi
  rw [hst] at hfits hslip
  cases hfits with
  | blocked c w k owed since hcode hw hc =>
    obtain ⟨-, hwait⟩ := Strand.Always.ok_of_call hcode rfl
    obtain ⟨rfl, hwhole⟩ := hwait hc
    have hwaits : ¬ IsFresh t.state := by
      rw [hst]
      exact not_isFresh_blocked
    -- Tasks that are woken by this become ready ahead of those that release what was owed.
    let m₁ := { m with state := (m.state.cancel m.now w).1 }.setTask i .dropped
    obtain ⟨l, he, hn, hl⟩ : m₁.Readies (m₁.obeyAll ((m.state.cancel m.now w).2.map .wake)) :=
      Machine.obeyAll_wake_readies _
    have hlen : m₁.tasks.length = m.tasks.length := Machine.length_setTask
    have hwoken : Fair { m with ready := m.ready ++ l } hands :=
      h.readies ⟨l, rfl, hn, fun j hj => hlen ▸ hl j hj⟩
    have hnot : ∀ j, ¬ Ahead { m with ready := m.ready ++ l } j i := not_ahead hi hwaits
    obtain ⟨hfree, hclean⟩ := hwoken.clean.unslip hslip
    obtain ⟨hclean, hpass⟩ := @Clean.cancel E _ _ _ _ m.now _ _ m.state w.2 hclean hfree hw
    have hdrop : m.drop i (.blocked c w k (hands i).owed since) =
        { m₁ with ready := m.ready ++ l }.forfeitAll (hands i).owed := by
      show (m₁.obeyAll _).forfeitAll _ = _
      rw [he]
      rfl
    rw [hdrop, forfeitAll_eq]
    refine ⟨⟨_, hwoken.forfeit hi ?_ hwhole (fun j _ _ _ => hnot j) ⟨rfl, ?_, rfl, rfl⟩ hclean⟩,
      hpass⟩
    · rw [hst]
      exact nofun
    · show m.ready ++ l ++ List.range' m₁.tasks.length _ = _
      rw [hlen]

/-- A reservation may be dropped wherever it is. -/
theorem drop (h : Fair m hands) (hi : m.tasks[i]? = some t) (htag : t.tag ≠ none) :
    Keeps m (m.drop i t.state) := by
  cases hst : t.state with
  | fresh p owed => exact h.drop_fresh hi hst htag
  | blocked c w k owed since => exact h.drop_blocked hi hst
  | running => exact .of_store h rfl
  | ended r time => exact .of_store h rfl
  | dropped => exact .of_store h rfl

/-! ## Turns -/

/-- A look of the task `i`, which runs or is the first that is ready. -/
theorem proceed (h : Fair m hands) {c : Call} {k : c.Answer → (Hall.host E).Code}
    {owed : List Release} {u : Ticket} {look : Look c.Answer (Hall.Pending E)}
    (hturn : HasTurn m i) (hcode : Careful (hands i) ⟨.call c k, owed⟩)
    (htasks : m'.tasks = (m.setTask i .running).tasks) (hfront : m'.front = m.front)
    (hready : m.ready = m'.ready ∨ m.ready = i :: m'.ready)
    (hl : Looked hands (Function.update (slip m) i none) (Ahead m) m.state.store m'.state.store
      m'.tickets i u c look) : Keeps m (m'.proceed i c k owed look) := by
  cases look with
  | answered a =>
    obtain ⟨hclean, hrefused⟩ := hl.answered a rfl
    have hnext : Careful ((hands i).next c a) ⟨k a, owed⟩ := by
      cases hcode with
      | call _ hk => exact hk a
    refine ⟨⟨Function.update hands i ((hands i).next c a), ?_⟩, hl.passes⟩
    refine h.set hturn htasks hfront hready ?_ (.inl ⟨_, rfl, rfl⟩) ?_ ?_ hclean
    · intro r hr
      cases hr
      exact ⟨rfl, rfl⟩
    · rw [hrefused]
      exact h.refused i
    · exact fun tag => .running ⟨i, k a, owed⟩ rfl rfl hnext
  | blocked w =>
    obtain ⟨rfl, hw, hc, hfree, hclean⟩ := hl.blocked w rfl
    obtain ⟨-, hwait⟩ := Strand.Always.ok_of_call hcode rfl
    obtain ⟨-, hwhole⟩ := hwait hc
    have htasks' : (m'.setTask i (.blocked c w k owed m'.tickets)).tasks =
        (m.setTask i (.blocked c w k owed m'.tickets)).tasks := by
      show m'.tasks.modify i _ = m.tasks.modify i _
      rw [htasks]
      exact List.modify_modify_eq ..
    have hblocked : Clean (Function.update hands i (hands i))
        (Function.update (slip m) i (some w.1)) (Ahead m) m'.state.store (m'.tickets + 1) := by
      rw [Function.update_eq_self]
      have hother : ∀ j, j ≠ i → Function.update (slip m) i (some w.1) j =
          Function.update (slip m) i none j := by
        intro j hj
        rw [Function.update_of_ne hj, Function.update_of_ne hj]
      refine hclean.reslip hother (Nat.le_succ _) fun u hu => ?_
      rw [Function.update_self] at hu
      obtain rfl := Option.some.inj hu
      exact ⟨Nat.lt_succ_of_lt hfree.bound, hfree.slip, hfree.holder⟩
    refine ⟨⟨Function.update hands i (hands i), ?_⟩, hl.passes⟩
    refine h.set hturn htasks' hfront hready nofun (.inr hwhole) (h.refused i) ?_ hblocked
    exact fun tag => .blocked c w k owed m'.tickets hcode hw hc

theorem careful (h : Fair m hands) {r : Running (Hall.host E)} (hr : m.running = some r) :
    ∃ t, m.tasks[r.id]? = some t ∧ t.state = .running ∧
      Careful (hands r.id) ⟨r.code, r.owed⟩ := by
  obtain ⟨t, ht, hst⟩ := h.running r hr
  have hfits := h.fits r.id t ht
  rw [hst] at hfits
  cases hfits with
  | running r' hr' hid hcode =>
    obtain rfl := Option.some.inj (hr.symm.trans hr')
    exact ⟨t, ht, hst, hcode⟩

theorem setTask_running (h : Fair m hands) {r : Running (Hall.host E)} (hr : m.running = some r) :
    (m.setTask r.id .running).tasks = m.tasks := by
  obtain ⟨t, ht, hst⟩ := h.running r hr
  exact Machine.setTask_eq ht hst

/-- A task that runs waits under no ticket. -/
theorem clean_running (h : Fair m hands) {r : Running (Hall.host E)} (hr : m.running = some r) :
    Clean hands (Function.update (slip m) r.id none) (Ahead m) m.state.store m.tickets := by
  obtain ⟨t, ht, hst⟩ := h.running r hr
  refine h.clean_of_slip ?_
  rw [slip_eq ht, hst]
  rfl

/-- The task that runs goes on with other code and the same hands. -/
theorem goOn (h : Fair m hands) {r : Running (Hall.host E)} (hr : m.running = some r)
    {code : (Hall.host E).Code} {owed : List Release} (hcode : Careful (hands r.id) ⟨code, owed⟩) :
    Keeps m { m with running := some ⟨r.id, code, owed⟩ } := by
  refine ⟨⟨Function.update hands r.id (hands r.id), ?_⟩, .of_holder fun _ => rfl⟩
  refine h.set (h.hasTurn_of_running hr) (h.setTask_running hr).symm rfl (.inl rfl) ?_
    (.inl ⟨_, rfl, rfl⟩) (h.refused r.id) (fun tag => .running _ rfl rfl hcode) ?_
  · intro r' hr'
    cases hr'
    exact ⟨rfl, rfl⟩
  · rw [Function.update_eq_self]
    exact h.clean_running hr

/-- The task that runs has ended. -/
theorem finish (h : Fair m hands) {r : Running (Hall.host E)} (hr : m.running = some r)
    {a : Option (Except AdmissionError Reservation)} (ha : Hands.Ends a (hands r.id) r.owed) :
    Keeps m { m.setTask r.id (.ended a m.now) with running := none } := by
  have hrefused := h.refused r.id
  have hempty : hands r.id = .empty := by
    obtain ⟨hlock, hpermits, -, -⟩ := ha
    generalize hands r.id = x at hlock hpermits hrefused
    obtain ⟨lock?, permits?, refused⟩ := x
    cases hlock
    cases hpermits
    cases hrefused
    rfl
  have hne : a ≠ some (.error .capacityExhausted) := by
    intro he
    cases (ha.refused he).symm.trans hrefused
  refine ⟨⟨Function.update hands r.id (hands r.id), ?_⟩, .of_holder fun _ => rfl⟩
  refine h.set (h.hasTurn_of_running hr) rfl rfl (.inl rfl) nofun (.inr ?_) hrefused
    (fun tag => .ended a m.now hempty hne) ?_
  · rw [hempty]
    exact nofun
  · rw [Function.update_eq_self]
    exact h.clean_running hr

/-- The task that runs makes a call. -/
theorem ask (h : Fair m hands) {r : Running (Hall.host E)} (hr : m.running = some r) {c : Call}
    {k : c.Answer → (Hall.host E).Code} (hcode : Careful (hands r.id) ⟨.call c k, r.owed⟩) :
    Keeps m (m.advance ⟨r.id, .call c k, r.owed⟩) := by
  have hturn := h.hasTurn_of_running hr
  have hclean := h.clean_running hr
  have hallows := (Strand.Always.ok_of_call hcode rfl).1
  have hnew : ∀ key, m.tickets ∉ (m.state.store.latch key).members := by
    intro key hmem
    exact Nat.lt_irrefl _ (h.clean.locks.members key _ hmem)
  have hlater : Clean hands (Function.update (slip m) r.id none) (Ahead m) m.state.store
      (m.tickets + 1) := by
    refine hclean.reslip (i := r.id) (fun _ _ => rfl) (Nat.le_succ _) fun u hu => ?_
    rw [Function.update_self] at hu
    cases hu
  have hl := @Clean.look E _ _ _ _ _ m.now _ _ m.state none hlater hclean.locks.isFree_new
    hturn.first hallows (.inl ⟨rfl, hnew⟩)
  let x := m.state.look m.now m.tickets c none
  let m₁ : Machine (Hall.host E) := { m with state := x.1, tickets := m.tickets + 1 }
  have hproceed : Keeps m (m₁.proceed r.id c k r.owed x.2.2) :=
    h.proceed hturn hcode (h.setTask_running hr).symm rfl (.inl rfl) hl
  have hwoken : m₁.Readies (m₁.obeyAll (x.2.1.map .wake)) := Machine.obeyAll_wake_readies x.2.1
  exact hproceed.readies (@Machine.proceed_readies _ _ _ r.id hwoken c k r.owed x.2.2)

/-- One node of the task that runs. -/
theorem advance (h : Fair m hands) {r : Running (Hall.host E)} (hr : m.running = some r) :
    Keeps m (m.advance r) := by
  obtain ⟨-, -, -, hcode⟩ := h.careful hr
  obtain ⟨i, code, owed⟩ := r
  cases hcode with
  | done hend => exact h.finish hr hend
  | call hok hk => exact h.ask hr (.call hok hk)
  | owe hcode => exact h.goOn hr hcode
  | settle hcode => exact h.goOn hr hcode
  | clear hcode => exact h.goOn hr hcode

/-- Only permits that were left behind are without the lock. -/
theorem whole (h : Fair m hands) (hr : m.running = none) (hi : m.tasks[i]? = some t)
    (ht : t.tag ≠ none ∨ ¬ IsFresh t.state) : (hands i).Whole := by
  have hempty : hands i = .empty → (hands i).Whole := by
    intro he
    rw [he]
    exact nofun
  have hfits := h.fits i t hi
  cases hst : t.state with
  | fresh p owed =>
    rw [hst] at hfits
    cases hfits with
    | fresh p _ hx => exact hempty (hx (ht.resolve_right fun hn => hn ⟨p, [], hst⟩))
  | blocked c w k owed since =>
    rw [hst] at hfits
    cases hfits with
    | blocked c w k owed since hcode hw hc => exact ((Strand.Always.ok_of_call hcode rfl).2 hc).2
  | running =>
    rw [hst] at hfits
    cases hfits with
    | running r hr' => cases hr.symm.trans hr'
  | ended r time =>
    rw [hst] at hfits
    cases hfits with
    | ended r time hx => exact hempty hx
  | dropped =>
    rw [hst] at hfits
    cases hfits with
    | dropped hx => exact hempty hx

/-- A task has its first turn. -/
theorem begin (h : Fair m hands) (hr : m.running = none) (hready : m.ready = i :: ready)
    (hi : m.tasks[i]? = some t) {p : (Hall.host E).Code} {owed : List Release}
    (hst : t.state = .fresh p owed) :
    Keeps m { { m with ready }.setTask i .running with running := some ⟨i, p, owed⟩ } := by
  have hfits := h.fits i t hi
  have hslip := slip_eq hi
  rw [hst] at hfits hslip
  cases hfits with
  | fresh p hcode _ =>
    refine ⟨⟨Function.update hands i (hands i), ?_⟩, .of_holder fun _ => rfl⟩
    refine h.set (h.hasTurn_of_ready hr hready) rfl rfl (.inr hready) ?_ (.inl ⟨_, rfl, rfl⟩)
      (h.refused i) (fun tag => .running _ rfl rfl hcode) ?_
    · intro r hr'
      cases hr'
      exact ⟨rfl, rfl⟩
    · rw [Function.update_eq_self]
      exact h.clean_of_slip hslip

/-- A task that waits looks again. -/
theorem lookAgain (h : Fair m hands) (hr : m.running = none) (hready : m.ready = i :: ready)
    (hi : m.tasks[i]? = some t) {c : Call} {w : Hall.Pending E}
    {k : c.Answer → (Hall.host E).Code} {owed : List Release} {since : Nat}
    (hst : t.state = .blocked c w k owed since) {x : Hall E × List Ticket × Look c.Answer _}
    (hx : m.state.look m.now w.1 c (some w.2) = x) :
    Keeps m (({ { m with ready }.setTask i .running with state := x.1 }.obeyAll
      (x.2.1.map .wake)).proceed i c k owed x.2.2) := by
  have hfits := h.fits i t hi
  have hslip := slip_eq hi
  rw [hst] at hfits hslip
  cases hfits with
  | blocked c w k owed since hcode hw hc =>
    have hturn := h.hasTurn_of_ready hr hready
    obtain ⟨hfree, hclean⟩ := h.clean.unslip hslip
    have hallows := (Strand.Always.ok_of_call hcode rfl).1
    have hl := @Clean.look E _ _ _ _ _ m.now _ _ m.state _ hclean hfree hturn.first hallows
      (.inr ⟨w.2, rfl, hw⟩)
    rw [hx] at hl
    let m₁ : Machine (Hall.host E) := { { m with ready }.setTask i .running with state := x.1 }
    have hproceed : Keeps m (m₁.proceed i c k owed x.2.2) :=
      h.proceed hturn hcode rfl rfl (.inr hready) hl
    have hwoken : m₁.Readies (m₁.obeyAll (x.2.1.map .wake)) := Machine.obeyAll_wake_readies x.2.1
    exact hproceed.readies (@Machine.proceed_readies _ _ _ i hwoken c k owed x.2.2)

/-- The first task that is ready has its turn. -/
theorem turn (h : Fair m hands) (hr : m.running = none) (hready : m.ready = i :: ready) :
    Keeps m ({ m with ready }.turn i) := by
  obtain ⟨t, hi⟩ : ∃ t, m.tasks[i]? = some t :=
    ⟨_, List.getElem?_eq_getElem (h.hasTurn_of_ready hr hready).bound⟩
  unfold Machine.turn
  split
  · rename_i hnone
    cases hi.symm.trans hnone
  rename_i t' hi'
  obtain rfl := Option.some.inj (hi.symm.trans hi')
  split
  · rename_i hstop
    have htag := h.stopped i t hi hstop
    have hlater : Fair { m with ready } hands := h.dequeue hr hready (h.whole hr hi (.inl htag))
    exact hlater.drop hi htag
  · split
    · rename_i hst
      exact h.begin hr hready hi hst
    · rename_i hst
      exact h.lookAgain hr hready hi hst rfl
    · rename_i hfresh hblocked
      have hnot : ¬ IsFresh t.state := fun ⟨p, owed, he⟩ => hfresh p owed he
      have hlater : Fair { m with ready } hands := h.dequeue hr hready (h.whole hr hi (.inr hnot))
      exact .of_store hlater rfl

theorem step (h : Fair m hands) : Keeps m (m.step?.getD m) := by
  unfold Machine.step?
  split
  · rename_i r hr
    exact h.advance hr
  · rename_i hr
    rw [Machine.next?_of_front h.front]
    cases hready : m.ready with
    | nil => exact .of_store h rfl
    | cons i ready =>
      have hkeeps := h.turn hr hready
      rw [List.head?_cons, Option.map_some, Option.getD_some, List.erase_cons_head]
      exact hkeeps

/-! ## Other acts -/

theorem slip_mark (m : Machine (Hall.host E)) (i : Nat) : slip (m.mark i) = slip m := by
  funext j
  cases hj : m.tasks[j]? with
  | none =>
    have hlen : (m.mark i).tasks.length ≤ j := by
      rw [Machine.length_mark]
      exact List.getElem?_eq_none_iff.1 hj
    unfold slip
    rw [hj, List.getElem?_eq_none hlen]
  | some t =>
    obtain ⟨t', ht', hst⟩ := Machine.getElem?_mark hj
    rw [slip_eq ht', slip_eq hj, hst]

/-- A reservation is marked to be dropped. -/
theorem mark (h : Fair m hands) (htag : ∀ t, m.tasks[i]? = some t → t.tag ≠ none) :
    Fair (m.mark i) hands := by
  refine ⟨⟨slip_mark m i ▸ h.clean.locks, ?permits⟩, ?fits, h.refused, ?beyond, ?stopped, ?running,
    h.front, h.nodup, ?bound⟩
  case permits =>
    refine h.clean.permits.reorder fun a b _ _ _ _ _ hab => ?_
    obtain ⟨⟨t, ht, hf⟩, hab⟩ := hab
    obtain ⟨t', ht', hst⟩ := Machine.getElem?_mark ht
    exact ⟨⟨t', ht', hst ▸ hf⟩, hab⟩
  case fits =>
    intro j t hj
    obtain ⟨t', ht', hst, htag', -⟩ := Machine.getElem?_mark_cases hj
    rw [hst, htag']
    exact h.fits j t' ht'
  case beyond =>
    intro j hj
    exact h.beyond j (Machine.length_mark ▸ hj)
  case stopped =>
    intro j t hj hs
    obtain ⟨t', ht', -, htag', hstop⟩ := Machine.getElem?_mark_cases hj
    rw [htag']
    rcases hstop with rfl | hstop
    · exact htag t' ht'
    · exact h.stopped j t' ht' (hstop ▸ hs)
  case running =>
    intro r hr
    obtain ⟨t, ht, hst⟩ := h.running r hr
    obtain ⟨t', ht', hst'⟩ := Machine.getElem?_mark ht
    exact ⟨t', ht', hst'.trans hst⟩
  case bound =>
    intro j hj
    rw [Machine.length_mark]
    exact h.bound j hj

theorem stop (h : Fair m hands) (htag : ∀ t, m.tasks[i]? = some t → t.tag ≠ none) :
    Fair (m.stop i) hands := by
  unfold Machine.stop
  split
  · rename_i t hi
    split
    · exact h
    · refine (h.mark htag).readies (Machine.enqueue_readies ?_)
      rw [Machine.length_mark]
      exact (List.getElem?_eq_some_iff.1 hi).1
  · exact h

theorem stopAll (h : Fair m hands) {ids : List Nat}
    (htag : ∀ i ∈ ids, ∀ t, m.tasks[i]? = some t → t.tag ≠ none) :
    Keeps m (ids.foldl Machine.stop m) := by
  have hall : ∀ m' : Machine (Hall.host E), Fair m' hands → m'.state = m.state →
      (∀ i ∈ ids, ∀ t, m'.tasks[i]? = some t → t.tag ≠ none) →
      Keeps m (ids.foldl Machine.stop m') := by
    clear htag
    induction ids with
    | nil => exact fun m' h' hs _ => .of_store h' (congrArg Hall.store hs)
    | cons i ids ih =>
      intro m' h' hs htag
      refine ih (m'.stop i) (h'.stop (htag i (List.mem_cons_self ..))) ?_ fun j hj t ht => ?_
      · rw [Machine.stop_state, hs]
      · obtain ⟨t', ht', he⟩ := Machine.tag_of_stop ht
        rw [he]
        exact htag j (List.mem_cons_of_mem _ hj) t' ht'
  exact hall m h rfl htag

theorem sweep (h : Fair m hands) : Keeps m { m with state := m.state.sweep m.now } := by
  obtain ⟨hclean, hpass⟩ := @Clean.sweep _ _ _ _ _ m.now h.clean
  exact ⟨⟨hands, h.state hclean⟩, hpass⟩

/-- Whatever happens, the machine stays fair. -/
theorem act (h : Fair m hands) (a : Act E) : Keeps m (act m a) := by
  cases a with
  | reserve tag settings hasFlags hasPublisher q =>
    exact .of_store (h.spawn (some tag) reserve_careful) rfl
  | abort tag =>
    refine h.stopAll fun i hi t ht => ?_
    obtain ⟨t', ht', htag⟩ := Machine.mem_numbers.1 hi
    obtain rfl := Option.some.inj (ht.symm.trans ht')
    rw [of_decide_eq_true htag]
    exact nofun
  | drop id =>
    simp only [Fifo.act]
    split
    · rename_i t hi
      split
      · rename_i htag
        exact h.drop hi (Option.isSome_iff_ne_none.1 htag)
      · exact .of_store h rfl
    · exact .of_store h rfl
  | step => exact h.step
  | jump t =>
    have hlater : Fair { m with now := max m.now t } hands :=
      ⟨h.clean, h.fits, h.refused, h.beyond, h.stopped, h.running, h.front, h.nodup, h.bound⟩
    exact Keeps.readies (.of_store hlater rfl) (Machine.jump_readies h.front t)
  | sweep => exact h.sweep
  | change σ signals =>
    have hlater : Fair { m with state := { m.state with others := σ } } hands := h.state h.clean
    exact Keeps.readies (.of_store hlater rfl) (Machine.obeyAll_wake_readies signals)

end Fair

theorem exists_fair_run (client : Ulid) (σ : E.State) (acts : List (Act E)) :
    ∃ hands, Fair (run (start client σ) acts) hands := by
  have hrun : ∀ (m : Machine (Hall.host E)) hands, Fair m hands →
      ∃ hands, Fair (run m acts) hands := by
    induction acts with
    | nil => exact fun m hands h => ⟨hands, h⟩
    | cons a acts ih =>
      intro m hands h
      obtain ⟨⟨hands', h'⟩, -⟩ := h.act a
      exact ih (act m a) hands' h'
  exact hrun _ _ (.start client σ)

/-- The task that asks for permits finds them and goes on at once. -/
theorem Fair.permits (h : Fair m hands) {r : Running (Hall.host E)} {key : SlotKey}
    {plan : PoolPlan} {demand : PoolDemand} {k : Except GuardError Bool → (Hall.host E).Code}
    (hr : m.running = some r) (hcode : r.code = .call (.permits false key plan demand) k) :
    m.state.store.Rested key.text ∧
      (m.state.store.takePermits key.text plan demand.permits.toNat m.now).2 = .granted ∧
      (demand.wait ≤ Limits.maxWait →
        (Fifo.act m .step).running = some ⟨r.id, k (.ok true), r.owed⟩) := by
  obtain ⟨-, -, -, hcareful⟩ := h.careful hr
  rw [hcode] at hcareful
  obtain ⟨-, hall, hkey, hpermits, ⟨o, hlock⟩, hnone⟩ :=
    (Strand.Always.ok_of_call hcareful rfl).1
  have hrested := h.clean.permits_rested (h.hasTurn_of_running hr).first hlock hnone
  have hgranted := (Local.Store.takePermits_of_rested plan m.now hrested).1
  refine ⟨hrested, by rwa [hall], fun hwait => ?_⟩
  have hcheck : (Local.Attempt.permits key.text plan demand).check = .ok () := by
    have hshort : Limits.checkWait demand.wait = .ok () := if_neg (Nat.not_lt.2 hwait)
    simp only [Local.Attempt.check, hkey, hshort, hpermits]
    rfl
  have hlook : (m.state.look m.now m.tickets (.permits false key plan demand) none).2.2 =
      .answered (.ok true) := by
    rcases @begin_permits_answered m.state.store m.now m.tickets key plan demand hrested hall with
      ⟨e, he, -⟩ | ⟨-, he⟩
    · cases hcheck.symm.trans he
    · show Hall.settle m.tickets (m.state.store.begin m.tickets m.now _).2 = _
      rw [he]
      rfl
  have hstep : Fifo.act m .step =
      m.advance ⟨r.id, .call (.permits false key plan demand) k, r.owed⟩ := by
    show m.step?.getD m = _
    rw [← hcode]
    simp only [Machine.step?, hr, Option.getD_some]
  let x := m.state.look m.now m.tickets (.permits false key plan demand) none
  let m₁ : Machine (Hall.host E) := { m with state := x.1, tickets := m.tickets + 1 }
  have hadvance : m.advance ⟨r.id, .call (.permits false key plan demand) k, r.owed⟩ =
      @Machine.proceed (Hall.host E) (m₁.obeyAll (x.2.1.map .wake)) r.id
        (Call.permits false key plan demand) k r.owed x.2.2 := rfl
  rw [hstep, hadvance, hlook]
  rfl

/-- A latch gets another holder only where the pool of its key is at rest: absent, or with all
permits there and none out. Whoever asks for permits finds them at its first look, and goes on with
them at once unless it would wait too long. Nobody waits for permits, and no reservation ends
because too little capacity was left. -/
theorem run_granted (client : Ulid) (σ : E.State) (acts : List (Act E)) :
    let m := run (start client σ) acts
    (∀ a, Passes m.state.store (act m a).state.store) ∧
    (∀ r key plan demand k, m.running = some r →
      r.code = .call (.permits false key plan demand) k →
      m.state.store.Rested key.text ∧
      (m.state.store.takePermits key.text plan demand.permits.toNat m.now).2 = .granted ∧
      (demand.wait ≤ Limits.maxWait →
        (act m .step).running = some ⟨r.id, k (.ok true), r.owed⟩)) ∧
    (∀ t ∈ m.tasks, ∀ spare key plan demand w k owed since,
      t.state ≠ .blocked (.permits spare key plan demand) w k owed since) ∧
    ∀ t ∈ m.tasks, ∀ time, t.state ≠ .ended (some (.error .capacityExhausted)) time := by
  intro m
  obtain ⟨hands, h⟩ : ∃ hands, Fair m hands := exists_fair_run client σ acts
  refine ⟨fun a => (h.act a).2, fun r key plan demand k hr hcode => h.permits hr hcode, ?_, ?_⟩
  · intro t ht spare key plan demand w k owed since hst
    obtain ⟨i, hi⟩ := List.mem_iff_getElem?.1 ht
    have hfits := h.fits i t hi
    rw [hst] at hfits
    cases hfits with
    | blocked c w k owed since hcode hw hc =>
      obtain rfl : spare = false := (Strand.Always.ok_of_call hcode rfl).1.1
      cases hc
  · intro t ht time hst
    obtain ⟨i, hi⟩ := List.mem_iff_getElem?.1 ht
    have hfits := h.fits i t hi
    rw [hst] at hfits
    cases hfits with
    | ended r time hx hne => exact hne rfl

/-- Everybody answers well but the writer, who keeps everybody waiting. -/
def slowWriter : Surroundings where
  State := Nat
  Pending := Unit
  due? _ := none
  tell n _
    | .newOwner => (n + 1, .ofNat n)
    | c => (n, Sample.answer c)
  look n _ _ c _ :=
    (n, [], match c with
      | .create _ => .blocked ()
      | c => .answered (Sample.answer c))
  cancel n _ _ _ := (n, [])

/-- Who has the latch and what the pool holds, some nodes after the first of two reservations was
dropped with the permits in its hands. -/
def inheritance (nodes : Nat) : Option Ticket × Option (Nat × List Nat) :=
  let visit (tag : Nat) : Act slowWriter := .reserve tag .default false false Sample.request
  let m := run (start ⟨0⟩ (1 : Nat)) ([visit 0, visit 1] ++ List.replicate 30 .step ++
    [.drop 0] ++ List.replicate nodes .step)
  let key := Sample.request.slot.key.text
  ((m.state.store.latch key).holder?,
    (m.state.store.pools.get? key).map fun p => (p.available, p.outstanding))

-- The permits are out, they come back, the latch is handed over, and they are out again.
example : [0, 2, 6, 12].map inheritance =
    [(some 2, some (0, [1])), (some 2, some (1, [])), (some 12, some (1, [])),
      (some 12, some (0, [1]))] := by decide +kernel

end Turnstile.Admission.Fifo
