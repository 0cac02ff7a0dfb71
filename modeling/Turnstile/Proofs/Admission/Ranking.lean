import Turnstile.Admission.Reserve
import Turnstile.Proofs.Ledger

/-!
# Drawing candidates in their order

The free candidates of a slot, by ascending number, when only their first one is ever taken: after
`n` of them are drawn the rest is what was free at the start without its first `n` (`Drawn.take`).
-/

namespace Turnstile.Admission

open Ledger (Distinct)

theorem ranked_perm (cs : List Candidate) : (Policy.ranked cs).Perm cs := List.mergeSort_perm ..

theorem ranked_sorted (cs : List Candidate) :
    (Policy.ranked cs).Pairwise fun a b => decide (a.id ≤ b.id) = true := by
  refine List.pairwise_mergeSort (fun a b c hab hbc => ?_) (fun a b => ?_) cs
  · exact decide_eq_true (UInt64.le_trans (of_decide_eq_true hab) (of_decide_eq_true hbc))
  · rcases UInt64.le_total a.id b.id with h | h <;> simp [h]

/-- There is one order of candidates with different numbers. -/
theorem ranked_eq {cs ds : List Candidate} (hp : ds.Perm cs)
    (hs : ds.Pairwise fun a b => decide (a.id ≤ b.id) = true)
    (hd : ∀ a ∈ cs, ∀ b ∈ cs, a.id = b.id → a = b) : Policy.ranked cs = ds := by
  refine List.Perm.eq_of_pairwise (fun a b ha hb hab hba => ?_) (ranked_sorted cs) hs
    ((ranked_perm cs).trans hp.symm)
  refine hd a ((ranked_perm cs).mem_iff.1 ha) b (hp.mem_iff.1 hb) ?_
  exact UInt64.le_antisymm (of_decide_eq_true hab) (of_decide_eq_true hba)

theorem nodup_query {l : Ledger} {slot : Slot} (hd : Distinct l.rows) :
    ((l.query slot).map (·.id)).Nodup := by
  unfold Ledger.query
  rw [List.map_map]
  exact hd.sublist (List.filter_sublist.map _)

/-- Of the candidates that were free in `l₀` the first `n` are taken. -/
structure Drawn (l₀ : Ledger) (slot : Slot) (l : Ledger) (n : Nat) : Prop where
  distinct : Distinct l.rows
  rest : Policy.ranked (l.query slot) = (Policy.ranked (l₀.query slot)).drop n
  nextId : l.nextId = l₀.nextId + UInt64.ofNat n

namespace Drawn

variable {l₀ l : Ledger} {slot : Slot} {n : Nat} {c : Candidate} {entry : Occupancy}

theorem start (hd : Distinct l₀.rows) : Drawn l₀ slot l₀ 0 where
  distinct := hd
  rest := rfl
  nextId := (UInt64.add_zero _).symm

/-- All candidates are drawn when a query returns none. -/
theorem query_eq_nil (h : Drawn l₀ slot l n) :
    l.query slot = [] ↔ (Policy.ranked (l₀.query slot))[n]? = none := by
  rw [List.getElem?_eq_none_iff, ← List.drop_eq_nil_iff, ← h.rest]
  constructor
  · intro hq
    rw [hq]
    exact List.mergeSort_nil
  · intro hr
    have := ranked_perm (l.query slot)
    rw [hr] at this
    exact this.symm.eq_nil

/-- The first of the rest is taken. -/
theorem take (h : Drawn l₀ slot l n) (hc : (Policy.ranked (l₀.query slot))[n]? = some c)
    (he : entry.candidate = c.id) :
    l.create entry = (l.accept entry, .ok (some (l₀.nextId + UInt64.ofNat n))) ∧
      Drawn l₀ slot (l.accept entry) (n + 1) := by
  obtain ⟨hn, hget⟩ := List.getElem?_eq_some_iff.1 hc
  have hrest : Policy.ranked (l.query slot) =
      c :: (Policy.ranked (l₀.query slot)).drop (n + 1) := by
    rw [h.rest, List.drop_eq_getElem_cons hn, hget]
  have hm : c ∈ l.query slot := (ranked_perm _).mem_iff.1 (by rw [hrest]; exact List.mem_cons_self ..)
  have hfree := (Ledger.mem_query.1 hm).1
  refine ⟨?_, ?_, ?_, ?_⟩
  · rw [Ledger.create_of_free h.distinct hfree he.symm, h.nextId]
  · exact h.distinct.mark
  · rw [Ledger.query_accept entry slot h.distinct]
    have hp := (ranked_perm (l.query slot)).filter fun d => decide (d.id ≠ entry.candidate)
    have hs := ranked_sorted (l.query slot)
    rw [hrest] at hp hs
    have hfilter : (c :: (Policy.ranked (l₀.query slot)).drop (n + 1)).filter
        (fun d => decide (d.id ≠ entry.candidate)) =
        (Policy.ranked (l₀.query slot)).drop (n + 1) := by
      have hnd := ((ranked_perm (l.query slot)).map (·.id)).nodup_iff.2 (nodup_query h.distinct)
      rw [hrest, List.map_cons] at hnd
      rw [List.filter_cons_of_neg (by simp [he])]
      refine List.filter_eq_self.2 fun d hd => decide_eq_true fun hid => ?_
      exact (List.nodup_cons.1 hnd).1 (List.mem_map.2 ⟨d, hd, hid.trans he⟩)
    rw [hfilter] at hp
    refine ranked_eq hp (List.pairwise_cons.1 hs).2 fun a ha b hb => ?_
    exact List.inj_on_of_nodup_map (nodup_query h.distinct) (List.mem_of_mem_filter ha)
      (List.mem_of_mem_filter hb)
  · show l.nextId + 1 = _
    rw [h.nextId, UInt64.ofNat_add, UInt64.add_assoc]
    rfl

end Drawn

end Turnstile.Admission
