import Mathlib.Data.List.Pairwise
import Turnstile.Proofs.Admission.Crowd
import Turnstile.Proofs.Ledger

/-!
# No double booking

A crowd over one ledger, where nothing is known of the guards: they may let everybody in, refuse,
fail or be asked at once with their substitutes, and threads may be dropped wherever they wait. Still
no candidate is taken twice (`reach_noDoubleBooking`). It is the writer alone that sees to it:
`Booked` ties the ledger to the entries that were accepted, and every step keeps it. What a single
reservation returns was offered to it by its own query and accepted in its own name (`Took`).
-/

namespace Turnstile.Admission

/-! ## What one reservation knows -/

/-- The candidate was in the answer to the query, and the writer gave it this number. -/
def Took (q : Request) (h : History) (x : UInt64 × Candidate) : Prop :=
  (∃ cs, ⟨.query q.slot, .ok cs⟩ ∈ h ∧ x.2 ∈ cs) ∧
    ∃ now, ⟨.create (.take x.2 q.user now), .ok (some x.1)⟩ ∈ h

/-- What the history says about the candidates of a phase. -/
def Phase.Seen (q : Request) (h : History) : Phase → Prop
  | pooling _ cs _ => ⟨.query q.slot, .ok cs⟩ ∈ h
  | walking _ _ rest => ∃ cs, ⟨.query q.slot, .ok cs⟩ ∈ h ∧ ∀ c ∈ rest, c ∈ cs
  | walked _ _ found => ∀ x, found = .ok x → Took q h x
  | leaving _ found => ∀ x, found = .ok x → Took q h x
  | unlocking _ found => ∀ x, found = .ok x → Took q h x
  | ended r => ∀ res, r = .ok res → ∃ x degraded, Took q h x ∧ res = reservation q degraded x
  | _ => True

section

variable {p : Policy} {q : Request} {h : History} {φ ψ : Phase} {c : Call} {a : c.Answer}
  {e : Asked collaborators} {x : UInt64 × Candidate} {r : Except AdmissionError Reservation}

theorem Took.snoc (ht : Took q h x) : Took q (h ++ [e]) x := by
  obtain ⟨⟨cs, hq, hm⟩, now, hc⟩ := ht
  exact ⟨⟨cs, List.mem_append_left _ hq, hm⟩, now, List.mem_append_left _ hc⟩

namespace Phase

theorem seen_offer {l : Hold} {spare : Bool} {rest : List Candidate}
    (hs : ∃ cs, ⟨.query q.slot, .ok cs⟩ ∈ h ∧ ∀ c ∈ rest, c ∈ cs) :
    (offer l spare rest).Seen q h := by
  cases rest with
  | nil => exact fun x hx => nomatch hx
  | cons c rest => exact hs

theorem seen_verdict {l : Hold} {found : Found} (hs : ∀ x, found = .ok x → Took q h x) :
    (ended (verdict q found l)).Seen q h := by
  intro res hr
  rcases found with e | x
  · cases l <;> cases hr
  · cases l <;> cases hr <;> exact ⟨x, _, hs x rfl, rfl⟩

theorem Moves.seen (hm : φ.Moves p q c a ψ) (hs : φ.Seen q h) : ψ.Seen q (h ++ [⟨c, a⟩]) := by
  have later {found : Found} (hf : ∀ x, found = .ok x → Took q h x) :
      ∀ x, found = .ok x → Took q (h ++ [⟨c, a⟩]) x := fun x hx => (hf x hx).snoc
  cases hm with
  | finds l c cs => exact List.mem_append_right _ (List.mem_singleton_self _)
  | findsNone l e _ => exact fun x hx => nomatch hx
  | admits l cs spare =>
    refine seen_offer ⟨cs, List.mem_append_left _ hs, fun c hc => ?_⟩
    exact List.mem_mergeSort.1 hc
  | permitsFallBack l cs _ => exact List.mem_append_left _ hs
  | permitsFail l cs spare e _ => exact fun x hx => nomatch hx
  | takes l spare c rest now id =>
    obtain ⟨cs, hq, hsub⟩ := hs
    rintro x ⟨⟩
    exact ⟨⟨cs, List.mem_append_left _ hq, hsub c (List.mem_cons_self ..)⟩, now,
      List.mem_append_right _ (List.mem_singleton_self _)⟩
  | passes l spare c rest now =>
    obtain ⟨cs, hq, hsub⟩ := hs
    exact seen_offer ⟨cs, List.mem_append_left _ hq,
      fun c' hc' => hsub c' (List.mem_cons_of_mem _ hc')⟩
  | breaks l spare c rest now e => exact fun x hx => nomatch hx
  | givesBack l spare found _ => exact later hs
  | holds owner found => exact later hs
  | holdsNot owner found _ => exact seen_verdict (later hs)
  | spareUnlocks held found _ => exact seen_verdict (later hs)
  | unlocks owner found _ => exact seen_verdict (later hs)
  | disabled => exact fun res hr => nomatch hr
  | rateFails spare e _ => exact fun res hr => nomatch hr
  | lockFails owner e _ => exact fun res hr => nomatch hr
  | spareLockFails e _ => exact fun res hr => nomatch hr
  | _ => trivial

end Phase

theorem Course.seen (hc : Course p q (.start p) h φ) : φ.Seen q h := by
  induction hc with
  | here => unfold Phase.start; split <;> trivial
  | ask a _ ha ih => exact (ha.moves a).seen ih

/-- A reservation that was made was found in a query of the slot and accepted by the writer. -/
theorem reserve_took {t : History} {res : Reservation}
    {s : Strand collaborators Release (Except AdmissionError Reservation)}
    (hl : Strand.Leads Release.program ⟨p.reserve q, []⟩ t s) (hs : s.result? = some (.ok res)) :
    ∃ x degraded, Took q t x ∧ res = reservation q degraded x := by
  obtain ⟨φ, hc, -, ho⟩ := reserve_course hl
  obtain ⟨-, rfl⟩ := ho _ hs
  obtain ⟨x, degraded, ⟨⟨cs, hq, hm⟩, now, hc⟩, hr⟩ := hc.seen res rfl
  exact ⟨x, degraded, ⟨⟨cs, List.mem_of_mem_filter hq, hm⟩, now, List.mem_of_mem_filter hc⟩, hr⟩

end

/-! ## The ledger and what it accepted -/

/-- The candidates of a ledger have different numbers after more were added. -/
def Fills (l l' : Ledger) : Prop :=
  ((∃ c, l' = l.add c) ∨ ∃ slot firstId count, l' = l.addTables slot firstId count) ∧
    Ledger.Distinct l'.rows

def Call.isLedger : Call → Bool
  | query _ => true
  | create _ => true
  | _ => false

/-- How a call may be answered when only the ledger can be relied on. -/
inductive LedgerLooks (l : Ledger) : (c : Call) → Option Unit → Ledger → Look c.Answer Unit → Prop
  | query (slot : Slot) (v : Option Unit) :
    LedgerLooks l (.query slot) v l (.answered (.ok (l.query slot)))
  | create (entry : Occupancy) (v : Option Unit) :
    LedgerLooks l (.create entry) v (l.create entry).1 (.answered (l.create entry).2)
  | other {c : Call} (v : Option Unit) (a : c.Answer) :
    c.isLedger = false → LedgerLooks l c v l (.answered a)
  | wait (c : Call) (v : Option Unit) : LedgerLooks l c v l (.blocked ())

/-- Only the ledger can be relied on. It starts empty and may be filled at any time. -/
abbrev Office.unguarded : Office where
  State := Ledger
  Pending := Unit
  Looks := LedgerLooks
  Drops l _ l' := l' = l
  Stirs := Fills
  Opens _ _ := True

/-- What the writer accepted with this call: the entry, and the number that it got. -/
def Call.accepts : (c : Call) → c.Answer → Option (Occupancy × UInt64)
  | create entry, .ok (some id) => some (entry, id)
  | _, _ => none

/-- What the writer accepted, oldest first. -/
def accepted (log : List (Nat × Asked collaborators)) : List (Occupancy × UInt64) :=
  log.filterMap fun e => e.2.call.accepts e.2.answer

/-- The ledger has accepted the entries `bs` since it was empty. -/
structure Booked (l : Ledger) (bs : List (Occupancy × UInt64)) : Prop where
  distinct : Ledger.Distinct l.rows
  entries : l.entries = bs.map (·.1)
  numbers : bs.map (·.2) = (List.range bs.length).map fun n => UInt64.ofNat (n + 1)
  nextId : l.nextId = UInt64.ofNat (bs.length + 1)
  rows : ∀ b ∈ bs, ∃ c, (c, some b.2) ∈ l.rows ∧ c.id = b.1.candidate
  candidates : (bs.map fun b => b.1.candidate).Nodup

section

variable {l l' : Ledger} {bs : List (Occupancy × UInt64)} {entry : Occupancy} {c : Candidate}

namespace Booked

theorem empty : Booked .empty [] where
  distinct := List.nodup_nil
  entries := rfl
  numbers := rfl
  nextId := rfl
  rows := by simp
  candidates := List.nodup_nil

theorem rows_fills (hf : Fills l l') :
    ∃ cs : List Candidate, l' = { l with rows := l.rows ++ cs.map fun c => (c, none) } := by
  rcases hf.1 with ⟨c, rfl⟩ | ⟨slot, firstId, count, rfl⟩
  · exact ⟨[c], rfl⟩
  · refine ⟨(List.range count).map (Ledger.tableAt slot firstId), ?_⟩
    rw [Ledger.addTables_eq, List.map_map]
    rfl

theorem fills (h : Booked l bs) (hf : Fills l l') : Booked l' bs := by
  have hd := hf.2
  obtain ⟨cs, rfl⟩ := rows_fills hf
  exact
    { distinct := hd
      entries := h.entries
      numbers := h.numbers
      nextId := h.nextId
      rows := fun b hb => by
        obtain ⟨c, hm, hid⟩ := h.rows b hb
        exact ⟨c, List.mem_append_left _ hm, hid⟩
      candidates := h.candidates }

/-- A free candidate was never accepted, so accepting it keeps the candidates different. -/
theorem accept (h : Booked l bs) (hm : (c, none) ∈ l.rows) (hid : c.id = entry.candidate) :
    Booked (l.accept entry) (bs ++ [(entry, l.nextId)]) where
  distinct := h.distinct.mark
  entries := by
    rw [List.map_append, ← h.entries]
    rfl
  numbers := by
    rw [List.map_append, h.numbers, List.length_append, List.length_singleton, List.range_succ,
      List.map_append, h.nextId]
    rfl
  nextId := by
    rw [List.length_append, List.length_singleton]
    show l.nextId + 1 = _
    rw [h.nextId, UInt64.ofNat_add (bs.length + 1) 1]
    rfl
  rows := by
    intro b hb
    rcases List.mem_append.1 hb with hb | hb
    · obtain ⟨c', hm', hid'⟩ := h.rows b hb
      have hne : c'.id ≠ entry.candidate := by
        intro he
        have := h.distinct.row_eq hm' hm (he.trans hid.symm)
        cases this
      exact ⟨c', (Ledger.mem_mark_of_ne hne).2 hm', hid'⟩
    · obtain rfl := List.mem_singleton.1 hb
      have := Ledger.mem_mark_self (o := l.nextId) h.distinct hm
      rw [hid] at this
      exact ⟨c, this, hid⟩
  candidates := by
    rw [List.map_append, List.nodup_append]
    refine ⟨h.candidates, List.nodup_singleton _, ?_⟩
    rintro x hx y hy rfl
    obtain ⟨b, hb, he⟩ := List.mem_map.1 hx
    obtain ⟨c', hm', hid'⟩ := h.rows b hb
    obtain rfl := List.mem_singleton.1 hy
    have := h.distinct.row_eq hm' hm ((hid'.trans he).trans hid.symm)
    cases this

theorem length_le (h : Booked l bs) : bs.length ≤ UInt64.size := by
  have := Ledger.length_le_of_nodup h.candidates
  rwa [List.length_map] at this

theorem numbers_nodup (h : Booked l bs) : (bs.map (·.2)).Nodup := by
  rw [h.numbers]
  refine List.Nodup.map_on (fun m hm n hn hmn => ?_) List.nodup_range
  have hl : bs.length ≤ 18_446_744_073_709_551_616 := h.length_le
  have hm := List.mem_range.1 hm
  have hn := List.mem_range.1 hn
  have := congrArg UInt64.toNat hmn
  rw [UInt64.toNat_ofNat', UInt64.toNat_ofNat'] at this
  omega

end Booked

/-! ## The crowd -/

theorem accepted_snoc {log : List (Nat × Asked collaborators)} {i : Nat} {c : Call} {a : c.Answer} :
    accepted (log ++ [(i, ⟨c, a⟩)]) = accepted log ++ (c.accepts a).toList := by
  simp only [accepted, List.filterMap_append, List.filterMap_cons, List.filterMap_nil]
  cases c.accepts a <;> rfl

/-- The ledger is what the writer accepted, and every query was answered from its rows. -/
structure Sound (w : Crowd Office.unguarded) : Prop where
  booked : Booked w.state (accepted w.log)
  queries : ∀ i slot cs, (i, ⟨.query slot, .ok cs⟩) ∈ w.log →
    ∀ c ∈ cs, c ∈ w.state.rows.map (·.1) ∧ c.slot.key = slot.key

theorem Call.accepts_of_not_isLedger {c : Call} {a : c.Answer} (h : c.isLedger = false) :
    c.accepts a = none := by
  cases c <;> first | rfl | cases h

namespace Sound

variable {w w' : Crowd Office.unguarded} {i : Nat} {ths : List (Thread Office.unguarded)}

theorem snoc {c : Call} {a : c.Answer} (h : Sound w) (ha : c.accepts a = none)
    (hq : ∀ slot cs, (⟨c, a⟩ : Asked collaborators) = ⟨.query slot, .ok cs⟩ →
      cs = w.state.query slot) :
    Sound ⟨w.state, ths, w.log ++ [(i, ⟨c, a⟩)]⟩ where
  booked := by
    show Booked w.state (accepted _)
    rw [accepted_snoc, ha, Option.toList_none, List.append_nil]
    exact h.booked
  queries j slot cs he d hd := by
    rcases List.mem_append.1 he with he | he
    · exact h.queries j slot cs he d hd
    · obtain ⟨-, he⟩ := Prod.mk.inj (List.mem_singleton.1 he)
      rw [hq slot cs he.symm] at hd
      obtain ⟨hm, hk⟩ := Ledger.mem_query.1 hd
      exact ⟨List.mem_map.2 ⟨_, hm, rfl⟩, hk⟩

theorem accept {entry : Occupancy} (h : Sound w) (hm : (c, none) ∈ w.state.rows)
    (hid : c.id = entry.candidate) :
    Sound ⟨w.state.accept entry, ths,
      w.log ++ [(i, ⟨.create entry, .ok (some w.state.nextId)⟩)]⟩ where
  booked := by
    show Booked (w.state.accept entry) (accepted _)
    rw [accepted_snoc]
    exact h.booked.accept hm hid
  queries j slot cs he d hd := by
    rcases List.mem_append.1 he with he | he
    · obtain ⟨hd, hk⟩ := h.queries j slot cs he d hd
      exact ⟨Ledger.map_mark.symm ▸ hd, hk⟩
    · cases List.mem_singleton.1 he

theorem look {c : Call} {v : Option Unit} {a : c.Answer} (h : Sound w)
    (hl : LedgerLooks w.state c v l (.answered a)) :
    Sound ⟨l, ths, w.log ++ [(i, ⟨c, a⟩)]⟩ := by
  cases hl with
  | query slot =>
    refine h.snoc rfl fun slot' cs he => ?_
    cases he
    rfl
  | create entry =>
    rcases Ledger.create_cases w.state entry with ⟨e, hc⟩ | hc | ⟨c, hm, hid, hc⟩
    · rw [hc]
      exact h.snoc rfl fun slot cs he => by cases he
    · rw [hc]
      exact h.snoc rfl fun slot cs he => by cases he
    · rw [hc]
      exact h.accept hm hid
  | other _ _ ho =>
    refine h.snoc (Call.accepts_of_not_isLedger ho) fun slot cs he => ?_
    cases he
    cases ho

theorem step (h : Sound w) (hs : w.Step w') : Sound w' := by
  cases hs with
  | arrive p q _ => exact ⟨h.booked, h.queries⟩
  | silent i th s _ _ _ => exact ⟨h.booked, h.queries⟩
  | answer i th c a s σ _ _ _ hl => exact h.look hl
  | block i th c v σ _ _ _ hl =>
    cases hl
    exact ⟨h.booked, h.queries⟩
  | drop i th c σ _ _ _ _ hd =>
    obtain rfl : σ = w.state := hd
    exact ⟨h.booked, h.queries⟩
  | stir σ hf =>
    -- Rows are only added, so whatever a query returned is still in one of them.
    refine ⟨h.booked.fills hf, fun i slot cs he d hd => ?_⟩
    obtain ⟨hm, hk⟩ := h.queries i slot cs he d hd
    obtain ⟨cs', rfl⟩ := Booked.rows_fills hf
    refine ⟨?_, hk⟩
    rw [List.map_append]
    exact List.mem_append_left _ hm

theorem of_reach (h : Crowd.Reach (O := .unguarded) Ledger.empty w) : Sound w := by
  induction h with
  | start => exact ⟨.empty, fun i slot cs he => nomatch he⟩
  | step _ hs ih => exact ih.step hs

end Sound

/-- No candidate is taken twice, and whoever was told so has one. -/
structure NoDoubleBooking (w : Crowd Office.unguarded) : Prop where
  /-- The writer accepted every candidate at most once. -/
  candidates : ((accepted w.log).map fun b => b.1.candidate).Nodup
  /-- There is one entry for each candidate that was accepted, and as many as numbers. -/
  entries : w.state.entries = (accepted w.log).map (·.1)
  /-- No number was handed out twice. -/
  numbers : ((accepted w.log).map (·.2)).Nodup
  /-- Two reservations that were made have different candidates and numbers. -/
  different : ∀ (i j : Nat) th th' r r', i ≠ j → w.threads[i]? = some th →
    w.threads[j]? = some th' → th.outcome? = some (.ok r) → th'.outcome? = some (.ok r') →
    r.candidate ≠ r'.candidate ∧ r.occupancy ≠ r'.occupancy
  /-- A reservation names a candidate that was added under the key of its request, and that is
  taken by it. -/
  named : ∀ (i : Nat) p q strand v b r, w.threads[i]? = some ⟨.reserve p q, strand, v, b⟩ →
    strand.result? = some (.ok r) → r.key = q.slot.key ∧
    ∃ c, (c, some r.occupancy) ∈ w.state.rows ∧ c.id = r.candidate ∧ c.table = r.table ∧
      c.slot.key = q.slot.key

section

variable {w : Crowd Office.unguarded}

/-- A reservation that was made is in the log as an entry that was accepted, of a candidate that a
query for its slot returned. -/
theorem created_of_outcome {i : Nat} {p : Policy} {q : Request} {v : Option Unit} {b : Bool}
    {s : Strand collaborators Release (Except AdmissionError Reservation)} {r : Reservation}
    (hl : w.Led) (hi : w.threads[i]? = some ⟨.reserve p q, s, v, b⟩)
    (hr : s.result? = some (.ok r)) :
    ∃ x degraded cs now, r = reservation q degraded x ∧
      (i, ⟨.query q.slot, .ok cs⟩) ∈ w.log ∧ x.2 ∈ cs ∧
      (i, ⟨.create (.take x.2 q.user now), .ok (some x.1)⟩) ∈ w.log := by
  obtain ⟨x, degraded, ⟨⟨cs, hq, hm⟩, now, hc⟩, hr⟩ := reserve_took (hl.leads i _ hi) hr
  exact ⟨x, degraded, cs, now, hr, mem_own.1 hq, hm, mem_own.1 hc⟩

theorem eq_of_accepted {α : Type} {f : Occupancy × UInt64 → α}
    {log : List (Nat × Asked collaborators)} (hn : ((accepted log).map f).Nodup)
    {e e' : Nat × Asked collaborators} {b b' : Occupancy × UInt64} (he : e ∈ log) (he' : e' ∈ log)
    (hb : e.2.call.accepts e.2.answer = some b) (hb' : e'.2.call.accepts e'.2.answer = some b')
    (hf : f b = f b') : e = e' := by
  by_contra hne
  have hp := List.pairwise_filterMap.1 (List.pairwise_map.1 hn)
  have : Std.Symm fun x y : Nat × Asked collaborators =>
      ∀ c, x.2.call.accepts x.2.answer = some c → ∀ d, y.2.call.accepts y.2.answer = some d →
        f c ≠ f d := ⟨fun x y h c hc d hd => (h d hd c hc).symm⟩
  exact hp.forall he he' hne b hb b' hb' hf

theorem reach_noDoubleBooking (h : Crowd.Reach (O := .unguarded) Ledger.empty w) :
    NoDoubleBooking w := by
  have hs := Sound.of_reach h
  have hl := h.led
  exact
    { candidates := hs.booked.candidates
      entries := hs.booked.entries
      numbers := hs.booked.numbers_nodup
      different := by
        rintro i j ⟨_ | _, s, v, b⟩ ⟨_ | _, s', v', b'⟩ r r' hij hi hj hr hr'
        · -- With one candidate or one number they would be in the log as one call, of one thread.
          obtain ⟨x, d, cs, now, rfl, -, -, hc⟩ := created_of_outcome hl hi hr
          obtain ⟨x', d', cs', now', rfl, -, -, hc'⟩ := created_of_outcome hl hj hr'
          refine ⟨fun he => hij ?_, fun he => hij ?_⟩
          · have := eq_of_accepted hs.booked.candidates hc hc' rfl rfl he
            exact (Prod.mk.inj this).1
          · have := eq_of_accepted hs.booked.numbers_nodup hc hc' rfl rfl he
            exact (Prod.mk.inj this).1
        · cases hr'
        · cases hr
        · cases hr
      named := by
        intro i p q s v b r hi hr
        obtain ⟨x, d, cs, now, rfl, hq, hm, hc⟩ := created_of_outcome hl hi hr
        obtain ⟨hadded, hkey⟩ := hs.queries i q.slot cs hq x.2 hm
        refine ⟨rfl, x.2, ?_, rfl, rfl, hkey⟩
        have ha : (Occupancy.take x.2 q.user now, x.1) ∈ accepted w.log :=
          List.mem_filterMap.2 ⟨_, hc, rfl⟩
        obtain ⟨c, hrow, hid⟩ := hs.booked.rows _ ha
        obtain ⟨⟨c', t⟩, hrow', rfl⟩ := List.mem_map.1 hadded
        cases hs.booked.distinct.row_eq hrow hrow' hid
        exact hrow }

end

/-! ## Three reservations side by side -/

namespace Sample

/-- The ledger answers for itself, and everybody else well. -/
def clerk (l : Ledger) : (c : Call) → Option Unit → Option (Ledger × Look c.Answer Unit)
  | .query slot, _ => some (l, .answered (.ok (l.query slot)))
  | .create entry, _ => some ((l.create entry).1, .answered (l.create entry).2)
  | c, _ => some (l, .answered (answer c))

theorem looks_of_clerk (l : Ledger) (c : Call) (v : Option Unit) (l' : Ledger)
    (look : Look c.Answer Unit) (h : clerk l c v = some (l', look)) :
    LedgerLooks l c v l' look := by
  cases c with
  | query slot => cases h; exact .query slot v
  | create entry => cases h; exact .create entry v
  | _ => cases h; exact .other v _ rfl

/-- A request for another restaurant. -/
def elsewhere : Request := { request with restaurant := 2 }

/-- One table in each of two restaurants. -/
def twoTables : Ledger := (Ledger.empty.addTables request.slot 7 1).addTables elsewhere.slot 8 1

/-- Two reservations of one table and one of another, which take their turns in circles. -/
def race : Crowd Office.unguarded :=
  ((List.range 72).map (· % 3)).foldl (Crowd.turn clerk)
    ⟨twoTables, [request, request, elsewhere].map fun q => .start (.reserve policy q), []⟩

theorem reach_race : Crowd.Reach (O := .unguarded) Ledger.empty race := by
  have h₁ := Crowd.Reach.start (O := .unguarded) (σ := Ledger.empty)
  have h₂ := h₁.step (.stir _ (Ledger.empty.addTables request.slot 7 1)
    ⟨.inr ⟨_, _, _, rfl⟩, by show List.Nodup _; decide⟩)
  have h₃ := h₂.step (.stir _ twoTables ⟨.inr ⟨_, _, _, rfl⟩, by show List.Nodup _; decide⟩)
  have h₄ := h₃.step (.arrive _ policy request trivial)
  have h₅ := h₄.step (.arrive _ policy request trivial)
  have h₆ := h₅.step (.arrive _ policy elsewhere trivial)
  exact h₆.turns looks_of_clerk _

end Sample

theorem sample_noDoubleBooking :
    Sample.race.threads.map Thread.outcome? =
      [some (.ok ⟨1, 7, 1, Sample.request.slot.key, false⟩), some (.error .noCandidates),
        some (.ok ⟨2, 8, 1, Sample.elsewhere.slot.key, false⟩)] ∧
    NoDoubleBooking Sample.race :=
  ⟨by decide +kernel, reach_noDoubleBooking Sample.reach_race⟩

end

end Turnstile.Admission
