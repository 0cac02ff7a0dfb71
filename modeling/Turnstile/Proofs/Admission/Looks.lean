import Turnstile.Proofs.Admission.Handover
import Turnstile.Proofs.Local.Callers

/-!
# Calls and what is in the hands

What one look at a call does to the store and to the hands of the task that made it. `Clean.look` is
about the first look or a later one, by a task that nobody is ahead of: all stays clean, a latch is
handed over only where the pool is at rest, and permits are neither refused nor waited for.
`Clean.cancel` and `Clean.inherit` are about tasks that are dropped.
-/

namespace Turnstile.Admission

variable {E : Surroundings} {hands : Nat → Hands} {slip : Nat → Option Ticket}
  {ahead ahead' : Nat → Nat → Prop} {s s' : Local.Store} {tickets i now : Nat} {t : Ticket}
  {k : SlotKey} {o : Ulid}

/-- What a call may wait for. -/
def Call.Waits : Call → Hall.Waiting E → Prop
  | .rate false _ _ _, .guard w => w.turn? = none ∧ w.pool? = none
  | .rate false _ _ _, .other _ => False
  | .lock key owner _, .guard w => w.turn? = some (key.text, some owner)
  | .lock _ _ _, .other _ => False
  | .permits false _ _ _, _ => False
  | _, .guard _ => False
  | _, .other _ => True

/-- What a look of the task `i` leaves behind, under the ticket `t`. -/
structure Looked (hands : Nat → Hands) (slip : Nat → Option Ticket) (ahead : Nat → Nat → Prop)
    (s s' : Local.Store) (tickets i : Nat) (t : Ticket) (c : Call)
    (x : Look c.Answer (Hall.Pending E)) : Prop where
  passes : Passes s s'
  answered : ∀ a, x = .answered a →
    Clean (Function.update hands i ((hands i).next c a)) slip ahead s' tickets ∧
      ((hands i).next c a).refused = (hands i).refused
  blocked : ∀ w, x = .blocked w → w.1 = t ∧ c.Waits w.2 ∧ c.mayWait = true ∧
    IsFree slip s' tickets t ∧ Clean hands slip ahead s' tickets

section

variable {c : Call} {x : Hands} {h : Hall E} {v : Option (Hall.Waiting E)} {wait : Duration}

theorem update_lock? : (fun j => (Function.update hands i x j).lock?) =
    Function.update (fun j => (hands j).lock?) i x.lock? := by
  funext j
  by_cases hj : j = i
  · subst hj
    rw [Function.update_self, Function.update_self]
  · rw [Function.update_of_ne hj, Function.update_of_ne hj]

theorem update_permits? : (fun j => (Function.update hands i x j).permits?) =
    Function.update (fun j => (hands j).permits?) i x.permits? := by
  funext j
  by_cases hj : j = i
  · subst hj
    rw [Function.update_self, Function.update_self]
  · rw [Function.update_of_ne hj, Function.update_of_ne hj]

/-- The task `i` has another lock, or none. -/
theorem Clean.setLock (hx : x.permits? = (hands i).permits?)
    (hl : Latched (Function.update (fun j => (hands j).lock?) i x.lock?) slip s tickets)
    (hp : Stocked (Function.update (fun j => (hands j).lock?) i x.lock?)
      (fun j => (hands j).permits?) ahead s) :
    Clean (Function.update hands i x) slip ahead s tickets := by
  have hsame : Function.update (fun j => (hands j).permits?) i x.permits? =
      fun j => (hands j).permits? := Function.update_eq_self_iff.2 hx
  exact ⟨update_lock? ▸ hl, by rwa [update_lock?, update_permits?, hsame]⟩

/-- The task `i` has other permits, or none. -/
theorem Clean.setPermits (hx : x.lock? = (hands i).lock?)
    (hl : Latched (fun j => (hands j).lock?) slip s tickets)
    (hp : Stocked (fun j => (hands j).lock?)
      (Function.update (fun j => (hands j).permits?) i x.permits?) ahead s) :
    Clean (Function.update hands i x) slip ahead s tickets := by
  have hsame : Function.update (fun j => (hands j).lock?) i x.lock? = fun j => (hands j).lock? :=
    Function.update_eq_self_iff.2 hx
  exact ⟨by rwa [update_lock?, hsame], by rwa [update_lock?, update_permits?, hsame]⟩

theorem Looked.answer {a : c.Answer} (hp : Passes s s')
    (hc : Clean (Function.update hands i ((hands i).next c a)) slip ahead s' tickets)
    (hr : ((hands i).next c a).refused = (hands i).refused) :
    Looked hands slip ahead s s' tickets i t c (.answered a : Look _ (Hall.Pending E)) := by
  refine ⟨hp, fun a' ha => ?_, nofun⟩
  cases ha
  exact ⟨hc, hr⟩

/-- An answer that puts nothing into the hands and takes nothing out of them. -/
theorem Looked.pass {a : c.Answer} (hp : Passes s s') (hc : Clean hands slip ahead s' tickets)
    (hn : (hands i).next c a = hands i) :
    Looked hands slip ahead s s' tickets i t c (.answered a : Look _ (Hall.Pending E)) := by
  refine .answer hp ?_ (by rw [hn])
  rwa [hn, Function.update_eq_self]

theorem Looked.block {w : Hall.Waiting E} (hp : Passes s s') (hw : c.Waits w)
    (hm : c.mayWait = true) (hfree : IsFree slip s' tickets t)
    (hc : Clean hands slip ahead s' tickets) :
    Looked hands slip ahead s s' tickets i t c (.blocked (t, w)) := by
  refine ⟨hp, nofun, fun w' hw' => ?_⟩
  cases hw'
  exact ⟨rfl, hw, hm, hfree, hc⟩

theorem IsFree.of_holders (h : IsFree slip s tickets t) (hh : s'.holders = s.holders) :
    IsFree slip s' tickets t :=
  ⟨h.bound, h.slip, hh ▸ h.holder⟩

theorem get?_pools (h : s'.pools = s.pools) (key : String) (p : Local.Pool)
    (hp : s'.pools.get? key = some p) : s.pools.get? key = some p :=
  h ▸ hp

/-- Latches and holders are left alone, and pools too unless some are gone. -/
theorem Clean.beside (hc : Clean hands slip ahead s tickets) (hb : s.Beside s')
    (hp : ∀ key p, s'.pools.get? key = some p → s.pools.get? key = some p) :
    Clean hands slip ahead s' tickets ∧ Passes s s' :=
  ⟨⟨hc.locks.beside hb, hc.permits.keep hp⟩, .of_holder fun key => by rw [hb.latch]⟩

/-! ### Asking for the lock -/

theorem next_lock_of_refused {o? : Local.Outcome} (ho : ∀ g, o? ≠ .ok (some g)) :
    x.next (.lock k o wait) (o?.map Option.isSome) = x := by
  rcases o? with e | _ | g
  · rfl
  · rfl
  · exact absurd rfl (ho g)

theorem Clean.begun (hc : Clean hands slip ahead s tickets) (hfree : IsFree slip s tickets t)
    (hi : (hands i).Allows (.lock k o wait)) {r : Local.Store × Local.Progress}
    (hb : s.Begun t k.text (some o) r) (hpools : r.1.pools = s.pools) :
    Looked hands slip ahead s r.1 tickets i t (.lock k o wait)
      (Hall.settle t r.2 : Look _ (Hall.Pending E)) := by
  have hp := get?_pools hpools
  cases hb with
  | refused s' o? ho hl hh =>
    obtain ⟨hc', hpass⟩ := hc.beside ⟨hl, hh⟩ hp
    exact .pass hpass hc' (next_lock_of_refused ho)
  | granted s' hidle hl hh =>
    have hn := hc.locks.no_holder hfree (.inl (by rw [hidle]; rfl))
    have hother : ∀ key, key ≠ k.text → s'.latch key = s.latch key := by
      intro key hkey
      rw [hl, Function.update_of_ne hkey]
    have hself : s'.latch k.text = .held t [] := by rw [hl, Function.update_self]
    refine .answer ?_ (.setLock rfl ?_ ?_) rfl
    · intro key u hu hne
      by_cases hkey : key = k.text
      · subst hkey
        intro p hpk
        exact hc.permits.rested_of_free (hc.locks.not_locked hn) p (hp k.text p hpk)
      · rw [hother key hkey] at hu
        exact absurd hu hne
    · refine hc.locks.grant hfree hn hh (by rw [hself]; rfl) hother fun key u hu => ?_
      by_cases hkey : key = k.text
      · subst hkey
        rw [hself] at hu
        rw [List.mem_singleton.1 hu]
        exact hfree.bound
      · rw [hother key hkey] at hu
        exact hc.locks.members key u hu
    · exact (hc.permits.grant hi.1 (k, o)).keep hp
  | waits s' deadline hbusy hl hh =>
    have hholder : ∀ key, (s'.latch key).holder? = (s.latch key).holder? := by
      intro key
      rw [hl]
      by_cases hkey : key = k.text
      · subst hkey
        rw [Function.update_self]
        refine Local.Latch.holder?_enter ?_
        cases hlatch : s.latch k.text with
        | idle => exact absurd hlatch hbusy
        | held u line => rfl
      · rw [Function.update_of_ne hkey]
    refine .block (.of_holder hholder) rfl rfl (hfree.of_holders hh) ⟨?_, hc.permits.keep hp⟩
    refine hc.locks.keep hh (fun key o' u hg => ?_) fun key u hu => ?_
    · rw [hholder key]
      exact (hc.locks.holder key o' u hg).1
    · rw [hl] at hu
      by_cases hkey : key = k.text
      · subst hkey
        rw [Function.update_self] at hu
        rcases Local.Latch.members_enter hu with rfl | hu
        · exact hfree.bound
        · exact hc.locks.members k.text u hu
      · rw [Function.update_of_ne hkey] at hu
        exact hc.locks.members key u hu

/-- A ticket under which nobody holds a lock leaves a latch: the latch is free, or somebody else
in the line has it. -/
theorem Clean.leave (hc : Clean hands slip ahead s tickets) (hfree : IsFree slip s tickets t)
    {name : String} (hl : s'.latch = Function.update s.latch name ((s.latch name).leave t).1)
    (hh : s'.holders = s.holders) (hpools : s'.pools = s.pools) :
    Clean hands slip ahead s' tickets ∧ Passes s s' := by
  have hp := get?_pools hpools
  refine ⟨⟨?_, hc.permits.keep hp⟩, fun key u hu hne => ?_⟩
  · refine hc.locks.keep hh (fun key o' u hg => ?_) fun key u hu => ?_
    · have hu := (hc.locks.holder key o' u hg).1
      rw [hl]
      by_cases hkey : key = name
      · subst hkey
        rw [Function.update_self, Local.Latch.holder?_leave, hu]
        intro ht
        obtain rfl := Option.some.inj (hu.symm.trans ht)
        exact hfree.holder key o' hg
      · rw [Function.update_of_ne hkey]
        exact hu
    · rw [hl] at hu
      by_cases hkey : key = name
      · subst hkey
        rw [Function.update_self] at hu
        exact hc.locks.members key u (Local.Latch.members_leave hu)
      · rw [Function.update_of_ne hkey] at hu
        exact hc.locks.members key u hu
  · rw [hl] at hu
    by_cases hkey : key = name
    · subst hkey
      rw [Function.update_self] at hu
      -- Only its holder hands a latch over, and this one was not told that it is the holder.
      have ht : (s.latch key).holder? = some t := by
        by_contra hnot
        rw [Local.Latch.holder?_leave hnot] at hu
        exact hne hu
      have hn := hc.locks.no_holder hfree (.inr ht)
      have hrest : s.Rested (⟨key⟩ : SlotKey).text :=
        hc.permits.rested_of_free (hc.locks.not_locked hn)
      exact fun p hpk => hrest p (hp key p hpk)
    · rw [Function.update_of_ne hkey] at hu
      exact absurd hu hne

theorem Clean.resumed (hc : Clean hands slip ahead s tickets) (hfree : IsFree slip s tickets t)
    (hi : (hands i).Allows (.lock k o wait)) {deadline : Nat}
    {r : Local.Store × List Ticket × Local.Progress}
    (hb : s.Resumed t k.text (some o) deadline r) (hpools : r.1.pools = s.pools) :
    Looked hands slip ahead s r.1 tickets i t (.lock k o wait)
      (Hall.settle t r.2.2 : Look _ (Hall.Pending E)) := by
  have hp := get?_pools hpools
  cases hb with
  | granted s' ht hl hh =>
    have hn := hc.locks.no_holder hfree (.inr ht)
    refine .answer (.of_holder fun key => by rw [hl]) (.setLock rfl ?_ ?_) rfl
    · refine hc.locks.grant hfree hn hh (by rw [hl]; exact ht) (fun key _ => by rw [hl]) ?_
      rw [hl]
      exact hc.locks.members
    · exact (hc.permits.grant hi.1 (k, o)).keep hp
  | quits s' woken hne hl hh hw =>
    obtain ⟨hc', hpass⟩ := hc.leave hfree hl hh hpools
    exact .pass hpass hc' rfl
  | stays hne => exact .block (.of_holder fun _ => rfl) rfl rfl hfree hc

/-! ### Tokens -/

theorem Looked.token {st : Local.Store} {p : Local.Progress} {key : SlotKey} {plan : RatePlan}
    (hc : Clean hands slip ahead s tickets) (hfree : IsFree slip s tickets t)
    (hb : s.Beside st ∧ ∀ w, p = .waiting w → w.turn? = none) (hpools : st.pools = s.pools)
    (hp : p.pool? = none) :
    Looked hands slip ahead s st tickets i t (.rate false key wait plan)
      (Hall.settle t p : Look _ (Hall.Pending E)) := by
  obtain ⟨hc', hpass⟩ := hc.beside hb.1 (get?_pools hpools)
  cases p with
  | done o => exact .pass hpass hc' rfl
  | waiting w => exact .block hpass ⟨hb.2 w rfl, hp⟩ rfl (hfree.of_holders hb.1.holders) hc'

/-! ### Permits -/

theorem Clean.permits_rested (hc : Clean hands slip ahead s tickets) (hahead : ∀ j, ¬ ahead j i)
    (hl : (hands i).lock? = some (k, o)) (hp : (hands i).permits? = none) : s.Rested k.text :=
  hc.permits.rested_of_lock hc.locks hl hp hahead

/-- Whoever has the lock and asks for all permits is refused by nothing but the check of its
input. -/
theorem begin_permits_answered {plan : PoolPlan} {demand : PoolDemand}
    (hr : s.Rested k.text) (hd : demand.permits = plan.capacity) :
    (∃ e, (Local.Attempt.permits k.text plan demand).check = .error e ∧
        s.begin t now (.permits k.text plan demand) = (s, .done (.error e))) ∨
      ((s.takePermits k.text plan plan.capacity.toNat now).2 = .granted ∧
        s.begin t now (.permits k.text plan demand) =
          ((s.takePermits k.text plan plan.capacity.toNat now).1, .done (.ok (some t)))) := by
  obtain ⟨hg, -, -⟩ := Local.Store.takePermits_of_rested plan now hr
  cases hcheck : (Local.Attempt.permits k.text plan demand).check with
  | error e =>
    refine .inl ⟨e, rfl, ?_⟩
    unfold Local.Store.begin
    rw [hcheck]
  | ok u =>
    refine .inr ⟨hg, ?_⟩
    unfold Local.Store.begin
    rw [hcheck]
    simp only [Local.Store.start, Local.Store.tryPermits, hd]
    generalize s.takePermits k.text plan plan.capacity.toNat now = r at hg
    obtain ⟨s', look⟩ := r
    cases hg
    rfl

theorem Looked.take {plan : PoolPlan} {demand : PoolDemand}
    (hc : Clean hands slip ahead s tickets) (hahead : ∀ j, ¬ ahead j i)
    (hi : (hands i).Allows (.permits false k plan demand)) :
    Looked hands slip ahead s (s.begin t now (.permits k.text plan demand)).1 tickets i t
      (.permits false k plan demand)
      (Hall.settle t (s.begin t now (.permits k.text plan demand)).2 : Look _ (Hall.Pending E)) := by
  obtain ⟨-, hd, -, -, ⟨o, hl⟩, hp⟩ := hi
  have hr := hc.permits_rested hahead hl hp
  rcases @begin_permits_answered s now t k plan demand hr hd with ⟨e, -, he⟩ | ⟨-, he⟩
  · rw [he]
    exact .pass (.of_holder fun _ => rfl) hc rfl
  · rw [he]
    obtain ⟨-, hlent, honly⟩ := Local.Store.takePermits_of_rested plan now hr
    have hb : s.Beside (s.takePermits k.text plan plan.capacity.toNat now).1 :=
      ⟨funext fun _ => honly.latch, honly.holders⟩
    have hnone : ∀ j, (hands j).permits? ≠ some k := by
      intro j hj
      rcases hc.permits.order j k hj with ⟨o', ho'⟩ | ⟨j', o', ho', hbefore⟩
      · obtain rfl := hc.locks.alone j i k o' o ho' hl
        cases hp.symm.trans hj
      · obtain rfl := hc.locks.alone j' i k o' o ho' hl
        exact hahead j hbefore
    refine .answer (.of_holder fun key => by rw [hb.latch])
      (.setPermits rfl (hc.locks.beside hb) ?_) rfl
    refine hc.permits.lend hl hp hlent (fun key hkey => ?_) hnone
    exact (Table.get?_insert ..).trans (if_neg hkey)

theorem Looked.giveBack (hc : Clean hands slip ahead s tickets)
    (hi : (hands i).permits? = some k) (a : Except GuardError Unit) :
    Looked hands slip ahead s (s.giveBack k.text now).1 tickets i t (.giveBack false k)
      (.answered a : Look _ (Hall.Pending E)) := by
  have hb : s.Beside (s.giveBack k.text now).1 := Local.Store.giveBack_beside
  obtain ⟨hr, -⟩ := Local.Store.giveBack_of_lent now (hc.permits.lent i k hi)
  refine .answer (.of_holder fun key => by rw [hb.latch])
    (.setPermits rfl (hc.locks.beside hb) ?_) rfl
  refine hc.permits.restore hi hr fun key hkey => ?_
  cases hp : s.pools.get? k.text with
  | none =>
    unfold Local.Store.giveBack
    rw [hp]
  | some p => exact (Local.Store.giveBack_pools hp key).trans (if_neg hkey)

/-! ### Letting go -/

theorem Looked.isHeldBy (hc : Clean hands slip ahead s tickets)
    (hi : (hands i).lock? = some (k, o)) :
    Looked hands slip ahead s s tickets i t (.isHeldBy k o)
      (.answered (.ok (s.isHeldBy k.text o)) : Look _ (Hall.Pending E)) := by
  obtain ⟨u, hu⟩ := hc.locks.known i k o hi
  have hheld : s.isHeldBy k.text o = true := (Local.Store.unlock_of_holder hu).1
  rw [hheld]
  exact .pass (.of_holder fun _ => rfl) hc rfl

theorem Looked.unlock (hc : Clean hands slip ahead s tickets) (hahead : ∀ j, ¬ ahead j i)
    (hi : (hands i).lock? = some (k, o)) (hp : (hands i).permits? = none)
    (a : Except GuardError Bool) :
    Looked hands slip ahead s (s.unlock k.text o).1 tickets i t (.unlock k o)
      (.answered a : Look _ (Hall.Pending E)) := by
  obtain ⟨u, hu⟩ := hc.locks.known i k o hi
  have hr := hc.permits_rested hahead hi hp
  have hpools : (s.unlock k.text o).1.pools = s.pools := (Local.Store.unlock_of_holder hu).2.2.1
  have hlatch : (s.unlock k.text o).1.latch =
      Function.update s.latch k.text ((s.latch k.text).leave u).1 := by
    rw [Local.Store.unlock_of_mem hu]
    exact Local.Store.latch_leaveLatch_eq
  have hholders : (s.unlock k.text o).1.holders = s.holders.erase k.text := by
    rw [Local.Store.unlock_of_mem hu]
    exact Local.Store.holders_leaveLatch
  have hother : ∀ key, key ≠ k.text → (s.unlock k.text o).1.latch key = s.latch key := by
    intro key hkey
    rw [hlatch, Function.update_of_ne hkey]
  have hsub := get?_pools hpools
  refine .answer (fun key w hw hne => ?_) (.setLock rfl ?_ ?_) rfl
  · by_cases hkey : key = k.text
    · subst hkey
      exact fun p hpk => hr p (hsub k.text p hpk)
    · rw [hother key hkey] at hw
      exact absurd hw hne
  · refine hc.locks.unlock hi hholders hother fun key w hw => ?_
    by_cases hkey : key = k.text
    · subst hkey
      rw [hlatch, Function.update_self] at hw
      exact hc.locks.members k.text w (Local.Latch.members_leave hw)
    · rw [hother key hkey] at hw
      exact hc.locks.members key w hw
  · exact (hc.permits.unlock hp hahead).keep hsub

/-! ### Any call -/

/-- The surroundings have nothing to do with what is in the hands. -/
theorem Looked.elsewhere {w? : Option E.Pending} (hc : Clean hands slip ahead h.store tickets)
    (hfree : IsFree slip h.store tickets t)
    (hrest : (∀ a, (hands i).next c a = hands i) ∧ (∀ w : E.Pending, c.Waits (.other w)) ∧
      c.mayWait = c.isAwaited) :
    Looked hands slip ahead h.store (h.elsewhere now t c w?).1.store tickets i t c
      (h.elsewhere now t c w?).2.2 := by
  obtain ⟨hn, hw, hm⟩ := hrest
  have hstay : Passes h.store h.store := .of_holder fun _ => rfl
  unfold Hall.elsewhere
  split
  · rename_i ha
    dsimp only
    generalize (E.look h.others now t c w?).2.2 = l
    cases l with
    | answered a => exact .pass hstay hc (hn a)
    | blocked w => exact .block hstay (hw w) (hm.trans ha) hfree hc
  · exact .pass hstay hc (hn _)

/-- A look at a call by a task that nobody is ahead of, the first look or a later one. -/
theorem Clean.look (hc : Clean hands slip ahead h.store tickets)
    (hfree : IsFree slip h.store tickets t) (hahead : ∀ j, ¬ ahead j i) (hi : (hands i).Allows c)
    (hv : v = none ∧ (∀ key, t ∉ (h.store.latch key).members) ∨ ∃ w, v = some w ∧ c.Waits w) :
    Looked hands slip ahead h.store (h.look now t c v).1.store tickets i t c
      (h.look now t c v).2.2 := by
  unfold Hall.look
  split
  · rename_i key wait plan
    rcases hv with ⟨rfl, -⟩ | ⟨w, rfl, hw⟩
    · refine Looked.token hc hfree (Local.Store.begin_beside rfl) (Local.Store.begin_pools ?_)
        (Local.Store.begin_pool? ?_)
      · exact nofun
      · exact nofun
    · cases w with
      | other w => exact hw.elim
      | guard w =>
        obtain ⟨hturn, hpool⟩ := hw
        refine Looked.token hc hfree (Local.Store.resume_beside hturn) (Local.Store.resume_pools ?_)
          (Local.Store.resume_pool? hpool)
        rintro key plan n deadline rfl
        cases hpool
  · rename_i key owner wait
    rcases hv with ⟨rfl, hnew⟩ | ⟨w, rfl, hw⟩
    · exact hc.begun hfree hi (Local.Store.begin_begun rfl (hnew key.text))
        (Local.Store.begin_pools nofun)
    · cases w with
      | other w => exact hw.elim
      | guard w =>
        cases w with
        | turn name o deadline =>
          cases hw
          exact hc.resumed hfree hi (Local.Store.resume_resumed deadline)
            (Local.Store.resume_pools nofun)
        | token => cases hw
        | permits => cases hw
  · rename_i key plan demand
    rcases hv with ⟨rfl, -⟩ | ⟨w, rfl, hw⟩
    · exact Looked.take hc hahead hi
    · exact hw.elim
  · exact Looked.isHeldBy hc hi.1
  · exact Looked.unlock hc hahead hi.1 hi.2 _
  · exact Looked.giveBack hc hi.2 _
  · rename_i hrate hlock hpermits hheld hunlock hback
    refine Looked.elsewhere hc hfree ?_
    cases c with
    | rate spare key wait plan =>
      cases spare with
      | false => exact absurd rfl (hrate key wait plan)
      | true => exact ⟨fun _ => rfl, fun _ => trivial, rfl⟩
    | permits spare key plan demand =>
      obtain rfl := hi.1
      exact absurd rfl (hpermits key plan demand)
    | giveBack spare key =>
      obtain rfl := hi.1
      exact absurd rfl (hback key)
    | lock key owner wait => exact absurd rfl (hlock key owner wait)
    | isHeldBy key owner => exact absurd rfl (hheld key owner)
    | unlock key owner => exact absurd rfl (hunlock key owner)
    | _ => exact ⟨fun _ => rfl, fun _ => trivial, rfl⟩

/-! ### What else may happen -/

/-- A task that waits is dropped, and its call forgotten. -/
theorem Clean.cancel {w : Hall.Waiting E} (hc : Clean hands slip ahead h.store tickets)
    (hfree : IsFree slip h.store tickets t) (hw : c.Waits w) :
    Clean hands slip ahead (h.cancel now (t, w)).1.store tickets ∧
      Passes h.store (h.cancel now (t, w)).1.store := by
  have hstay : Clean hands slip ahead h.store tickets ∧ Passes h.store h.store :=
    ⟨hc, .of_holder fun _ => rfl⟩
  cases w with
  | other w => exact hstay
  | guard w =>
    cases w with
    | token bucket plan deadline wake => exact hstay
    | turn name owner deadline =>
      exact hc.leave hfree Local.Store.latch_leaveLatch_eq Local.Store.holders_leaveLatch
        Local.Store.pools_leaveLatch
    | permits key plan n deadline =>
      -- Nobody waits for permits.
      exfalso
      cases c with
      | rate spare => cases spare <;> first | exact nomatch hw.2 | exact hw
      | permits spare => cases spare <;> exact hw
      | lock => cases hw
      | _ => exact hw

theorem Clean.sweep (hc : Clean hands slip ahead s tickets) :
    Clean hands slip ahead (s.sweep now) tickets ∧ Passes s (s.sweep now) :=
  hc.beside Local.Store.sweep_beside fun key _ hp =>
    (Local.Store.sweep_agrees : Local.Store.Agrees "" key s (s.sweep now)).pool _ hp

/-- The hands after the task `i` was dropped, when what it owes goes to tasks from `n` on. -/
def inherit (hands : Nat → Hands) (i n : Nat) (owed : List Release) (j : Nat) : Hands :=
  if n ≤ j then (owed[j - n]?.map Release.hands).getD .empty
  else if j = i then .empty
  else hands j

variable {n j : Nat}

theorem inherit_old (hj : j < n) (hji : j ≠ i) (owed : List Release) :
    inherit hands i n owed j = hands j := by
  unfold inherit
  rw [if_neg (Nat.not_le.2 hj), if_neg hji]

theorem inherit_new (owed : List Release) :
    inherit hands i n owed (n + j) = (owed[j]?.map Release.hands).getD .empty := by
  unfold inherit
  rw [if_pos (Nat.le_add_right n j), Nat.add_sub_cancel_left]

theorem inherit_cases (hands : Nat → Hands) (i n : Nat) (owed : List Release) (j : Nat) :
    inherit hands i n owed j = .empty ∨
      (j < n ∧ j ≠ i ∧ inherit hands i n owed j = hands j) ∨
      ∃ d r, j = n + d ∧ owed[d]? = some r ∧ inherit hands i n owed j = r.hands := by
  by_cases hj : j < n
  · by_cases hji : j = i
    · left
      unfold inherit
      rw [if_neg (Nat.not_le.2 hj), if_pos hji]
    · exact .inr (.inl ⟨hj, hji, inherit_old hj hji owed⟩)
  · obtain ⟨d, rfl⟩ := Nat.exists_eq_add_of_le (Nat.not_lt.1 hj)
    rw [inherit_new]
    cases hd : owed[d]? with
    | none => exact .inl rfl
    | some r => exact .inr (.inr ⟨d, r, rfl, hd, rfl⟩)

theorem getElem?_owed_lock {d : Nat} {r : Release} (hr : x.owed[d]? = some r)
    (hl : r.hands.lock? = some (k, o)) :
    x.lock? = some (k, o) ∧ d = x.permits?.toList.length := by
  obtain ⟨lock?, permits?, refused⟩ := x
  rcases lock? with _ | ⟨k', o'⟩ <;> rcases permits? with _ | k'' <;> rcases d with _ | _ | d <;>
    simp [Hands.owed] at hr
  · subst hr
    cases hl
  · subst hr
    cases hl
    exact ⟨rfl, rfl⟩
  · subst hr
    cases hl
  · subst hr
    cases hl
    exact ⟨rfl, rfl⟩

theorem getElem?_owed_permits {d : Nat} {r : Release} (hr : x.owed[d]? = some r)
    (hp : r.hands.permits? = some k) : x.permits? = some k ∧ d = 0 := by
  obtain ⟨lock?, permits?, refused⟩ := x
  rcases lock? with _ | ⟨k', o'⟩ <;> rcases permits? with _ | k'' <;> rcases d with _ | _ | d <;>
    simp [Hands.owed] at hr
  · subst hr
    cases hp
    exact ⟨rfl, rfl⟩
  · subst hr
    cases hp
  · subst hr
    cases hp
    exact ⟨rfl, rfl⟩
  · subst hr
    cases hp

/-- Who has a lock had it before, or has it from the task that was dropped. -/
theorem lock_of_inherit
    (hj : (Admission.inherit hands i n (hands i).owed j).lock? = some (k, o)) :
    (j < n ∧ j ≠ i ∧ (hands j).lock? = some (k, o)) ∨
      (j = n + (hands i).permits?.toList.length ∧ (hands i).lock? = some (k, o)) := by
  rcases inherit_cases hands i n (hands i).owed j with he | ⟨hlt, hji, he⟩ | ⟨d, r, rfl, hr, he⟩
  · rw [he] at hj
    cases hj
  · exact .inl ⟨hlt, hji, he ▸ hj⟩
  · rw [he] at hj
    obtain ⟨hl, rfl⟩ := getElem?_owed_lock hr hj
    exact .inr ⟨rfl, hl⟩

theorem permits_of_inherit
    (hj : (Admission.inherit hands i n (hands i).owed j).permits? = some k) :
    (j < n ∧ j ≠ i ∧ (hands j).permits? = some k) ∨
      (j = n ∧ (hands i).permits? = some k) := by
  rcases inherit_cases hands i n (hands i).owed j with he | ⟨hlt, hji, he⟩ | ⟨d, r, rfl, hr, he⟩
  · rw [he] at hj
    cases hj
  · exact .inl ⟨hlt, hji, he ▸ hj⟩
  · rw [he] at hj
    obtain ⟨hp, rfl⟩ := getElem?_owed_permits hr hj
    exact .inr ⟨rfl, hp⟩

theorem inherit_lock (hn : ∀ j, n ≤ j → hands j = .empty) (hj : (hands j).lock? = some (k, o))
    (hji : j ≠ i) (owed : List Release) :
    j < n ∧ (Admission.inherit hands i n owed j).lock? = some (k, o) := by
  have hlt : j < n := by
    by_contra hge
    rw [hn j (Nat.not_lt.1 hge)] at hj
    cases hj
  exact ⟨hlt, by rwa [inherit_old hlt hji]⟩

/-- No permits are lost. -/
theorem exists_inherit_permits (hn : ∀ j, n ≤ j → hands j = .empty)
    (hj : (hands j).permits? = some k) :
    ∃ j', (Admission.inherit hands i n (hands i).owed j').permits? = some k := by
  by_cases hji : j = i
  · subst hji
    refine ⟨n + 0, ?_⟩
    rw [inherit_new]
    simp [Hands.owed, hj, Release.hands]
  · have hlt : j < n := by
      by_contra hge
      rw [hn j (Nat.not_lt.1 hge)] at hj
      cases hj
    exact ⟨j, by rwa [inherit_old hlt hji]⟩

/-- What a task that is dropped has in its hands goes to tasks of their own, permits ahead of the
lock. -/
theorem Clean.inherit (hc : Clean hands slip ahead s tickets) (hx : (hands i).Whole)
    (hi : i < n) (hn : ∀ j, n ≤ j → hands j = .empty)
    (hahead : ∀ j k o, (hands i).lock? = some (k, o) → ¬ ahead j i)
    (hnew : (hands i).owed.length = 2 → ahead' n (n + 1))
    (hold : ∀ a b, a < n → b < n → b ≠ i → ahead a b → ahead' a b) :
    Clean (Admission.inherit hands i n (hands i).owed) slip ahead' s tickets := by
  constructor
  · refine ⟨hc.locks.holder, hc.locks.members, hc.locks.bound, hc.locks.apart, ?_, ?_⟩
    · intro j k o hj
      rcases lock_of_inherit hj with ⟨-, -, hj⟩ | ⟨-, hj⟩
      · exact hc.locks.known j k o hj
      · exact hc.locks.known i k o hj
    · intro j j' k o o' hj hj'
      rcases lock_of_inherit hj with ⟨-, hji, hj⟩ | ⟨rfl, hk⟩
      · rcases lock_of_inherit hj' with ⟨-, -, hj'⟩ | ⟨-, hj'⟩
        · exact hc.locks.alone j j' k o o' hj hj'
        · exact absurd (hc.locks.alone j i k o o' hj hj') hji
      · rcases lock_of_inherit hj' with ⟨-, hji', hj'⟩ | ⟨rfl, -⟩
        · exact absurd (hc.locks.alone j' i k o' o hj' hk) hji'
        · rfl
  · constructor
    · intro j k hj
      rcases permits_of_inherit hj with ⟨hlt, hji, hj⟩ | ⟨rfl, hk⟩
      · rcases hc.permits.order j k hj with ⟨o, ho⟩ | ⟨j', o, ho, hbefore⟩
        · exact .inl ⟨o, (inherit_lock hn ho hji _).2⟩
        · have hji' : j' ≠ i := by
            rintro rfl
            exact hahead j k o ho hbefore
          obtain ⟨hlt', ho'⟩ := inherit_lock hn ho hji' (hands i).owed
          exact .inr ⟨j', o, ho', hold j j' hlt hlt' hji' hbefore⟩
      · obtain ⟨o, ho⟩ := hx k hk
        refine .inr ⟨j + 1, o, ?_, hnew ?_⟩
        · show (Admission.inherit hands i j (hands i).owed (j + 1)).lock? = some (k, o)
          rw [inherit_new]
          simp [Hands.owed, hk, ho, Release.hands]
        · simp [Hands.owed, hk, ho]
    · intro j j' k hj hj'
      rcases permits_of_inherit hj with ⟨-, hji, hj⟩ | ⟨rfl, hk⟩
      · rcases permits_of_inherit hj' with ⟨-, -, hj'⟩ | ⟨-, hj'⟩
        · exact hc.permits.once j j' k hj hj'
        · exact absurd (hc.permits.once j i k hj hj') hji
      · rcases permits_of_inherit hj' with ⟨-, hji', hj'⟩ | ⟨rfl, -⟩
        · exact absurd (hc.permits.once j' i k hj' hk) hji'
        · rfl
    · intro j k hj
      rcases permits_of_inherit hj with ⟨-, -, hj⟩ | ⟨-, hj⟩
      · exact hc.permits.lent j k hj
      · exact hc.permits.lent i k hj
    · intro key hno
      refine hc.permits.rested key fun j hj => ?_
      obtain ⟨j', hj'⟩ := @exists_inherit_permits _ i _ n j hn hj
      exact hno j' hj'

end

end Turnstile.Admission
