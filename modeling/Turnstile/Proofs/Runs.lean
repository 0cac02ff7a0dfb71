import Mathlib.Data.List.Forall2
import Turnstile.Proofs.Strand

/-!
# Whole runs

A `Behaviour` answers each call in view of all that was asked before, so it stands for
collaborators with any state of their own. `Ends` is the run of a strand under a behaviour to the
end. There is only one (`Ends.unique`), it is a trace of `Leads` (`Ends.leads`), and a strand of
which `Always` holds has it (`Always.ends`). `trial` computes it for a strand that is given.

`Yields` says what all traces of a program have in common, whoever answers. `Answered` is what is
left of a run under a behaviour if only its trace is looked at. `Concurs` compares two runs of one
program: two behaviours that answer alike as far as the program asks see the same run, although
their histories differ and although different things are owed. `Parallel` compares the runs of two
programs, call by call, when the calls and the answers may differ as well.
-/

namespace Turnstile

/-- The answers to calls, given the calls and answers so far. -/
abbrev Behaviour (I : Interface) := List (Asked I) → (c : I.Call) → I.Answer c

namespace Strand

variable {I : Interface} {ρ α β Φ : Type}

/-- Under the behaviour `F` and after the history `h`, the strand makes the calls of the trace and
returns `a`, and then it owes `owed`. -/
inductive Ends (settle : ρ → Program I ρ Unit) (F : Behaviour I) :
    List (Asked I) → Strand I ρ α → List (Asked I) → α → List ρ → Prop
  | done {h : List (Asked I)} {a : α} {owed : List ρ} : Ends settle F h ⟨.done a, owed⟩ [] a owed
  | call {h t : List (Asked I)} {c : I.Call} {k : I.Answer c → Program I ρ α} {a : α}
    {owed o : List ρ} : Ends settle F (h ++ [⟨c, F h c⟩]) ⟨k (F h c), owed⟩ t a o →
    Ends settle F h ⟨.call c k, owed⟩ (⟨c, F h c⟩ :: t) a o
  | owe {h t : List (Asked I)} {r : ρ} {p : Program I ρ α} {a : α} {owed o : List ρ} :
    Ends settle F h ⟨p, r :: owed⟩ t a o → Ends settle F h ⟨.owe r p, owed⟩ t a o
  | settle {h t : List (Asked I)} {r : ρ} {p : Program I ρ α} {a : α} {owed o : List ρ} :
    Ends settle F h ⟨(settle r).bind fun _ => p, owed⟩ t a o →
    Ends settle F h ⟨.settle p, r :: owed⟩ t a o
  | clear {h t : List (Asked I)} {p : Program I ρ α} {a : α} {o : List ρ} :
    Ends settle F h ⟨p, []⟩ t a o → Ends settle F h ⟨.settle p, []⟩ t a o

section

variable {settle : ρ → Program I ρ Unit} {F : Behaviour I} {h t u : List (Asked I)}
  {s s' s'' : Strand I ρ α} {a : α} {owed o : List ρ}

theorem Leads.trans (hl : Leads settle s t s') (hl' : Leads settle s' u s'') :
    Leads settle s (t ++ u) s'' := by
  induction hl' with
  | here => rwa [List.append_nil]
  | step _ hs ih =>
    rw [← List.append_assoc]
    exact ih.step hs

theorem Leads.head (hs : Step settle s t s') (hl : Leads settle s' u s'') :
    Leads settle s (t ++ u) s'' :=
  (Leads.here.step hs).trans hl

namespace Ends

theorem leads (he : Ends settle F h s t a o) : Leads settle s t ⟨.done a, o⟩ := by
  induction he with
  | done => exact .here
  | call _ ih => exact .head (.call ..) ih
  | owe _ ih => exact .head (.owe ..) ih
  | settle _ ih => exact .head (.settle ..) ih
  | clear _ ih => exact .head (.clear ..) ih

theorem ask {c : I.Call} {k : I.Answer c → Program I ρ α} {x : I.Answer c} (hx : F h c = x)
    (he : Ends settle F (h ++ [⟨c, x⟩]) ⟨k x, owed⟩ t a o) :
    Ends settle F h ⟨.call c k, owed⟩ (⟨c, x⟩ :: t) a o := by
  subst hx
  exact .call he

theorem unique {b : α} {o' : List ρ} (he : Ends settle F h s t a o)
    (he' : Ends settle F h s u b o') : t = u ∧ a = b ∧ o = o' := by
  induction he generalizing u with
  | done =>
    cases he'
    exact ⟨rfl, rfl, rfl⟩
  | call _ ih =>
    cases he' with
    | call he' =>
      obtain ⟨rfl, rfl, rfl⟩ := ih he'
      exact ⟨rfl, rfl, rfl⟩
  | owe _ ih => cases he' with | owe he' => exact ih he'
  | settle _ ih => cases he' with | settle he' => exact ih he'
  | clear _ ih => cases he' with | clear he' => exact ih he'

theorem bind {p : Program I ρ α} {f : α → Program I ρ β} {b : β} {o' : List ρ}
    (hp : Ends settle F h ⟨p, owed⟩ t a o) (hf : Ends settle F (h ++ t) ⟨f a, o⟩ u b o') :
    Ends settle F h ⟨p.bind f, owed⟩ (t ++ u) b o' := by
  generalize hs : (⟨p, owed⟩ : Strand I ρ α) = s at hp
  induction hp generalizing p owed with
  | done =>
    cases hs
    rw [List.append_nil] at hf
    exact hf
  | call _ ih =>
    cases hs
    rw [List.append_cons] at hf
    exact .call (ih hf rfl)
  | owe _ ih =>
    cases hs
    exact .owe (ih hf rfl)
  | settle _ ih =>
    cases hs
    have hp := ih hf rfl
    rw [Program.bind_assoc] at hp
    exact .settle hp
  | clear _ ih =>
    cases hs
    exact .clear (ih hf rfl)

/-- A run with a first call begins with it. -/
theorem of_ask {c : I.Call} {k : I.Answer c → Program I ρ α} {x : I.Answer c} (hx : F h c = x)
    (he : Ends settle F h ⟨.call c k, owed⟩ t a o) :
    ∃ u, t = ⟨c, x⟩ :: u ∧ Ends settle F (h ++ [⟨c, x⟩]) ⟨k x, owed⟩ u a o := by
  subst hx
  cases he with
  | call he => exact ⟨_, rfl, he⟩

/-- A run of two programs begins with the one of the first. -/
theorem of_bind {p : Program I ρ α} {f : α → Program I ρ β} {b : β} {o' : List ρ}
    (hp : Ends settle F h ⟨p, owed⟩ t a o) (he : Ends settle F h ⟨p.bind f, owed⟩ u b o') :
    ∃ v, u = t ++ v ∧ Ends settle F (h ++ t) ⟨f a, o⟩ v b o' := by
  generalize hs : (⟨p, owed⟩ : Strand I ρ α) = s at hp
  induction hp generalizing p owed u with
  | done =>
    cases hs
    refine ⟨u, rfl, ?_⟩
    rw [List.append_nil]
    exact he
  | call _ ih =>
    cases hs
    obtain ⟨u, rfl, hrest⟩ := of_ask rfl he
    obtain ⟨v, rfl, hv⟩ := ih hrest rfl
    rw [← List.append_cons] at hv
    exact ⟨v, rfl, hv⟩
  | owe _ ih =>
    cases hs
    cases he with
    | owe he => exact ih he rfl
  | settle _ ih =>
    cases hs
    cases he with
    | settle he =>
      rw [← Program.bind_assoc] at he
      exact ih he rfl
  | clear _ ih =>
    cases hs
    cases he with
    | clear he => exact ih he rfl

theorem owing {p : Program I ρ α} {r : ρ} (hp : Ends settle F h ⟨p, r :: owed⟩ t a (r :: owed))
    (hr : Ends settle F (h ++ t) ⟨settle r, owed⟩ u () owed) :
    Ends settle F h ⟨p.owing r, owed⟩ (t ++ u) a owed := by
  refine .owe (hp.bind (.settle ?_))
  rw [← List.append_nil u]
  exact hr.bind .done

end Ends

/-- The run of a strand, if it ends after less than so many nodes. -/
def trial (settle : ρ → Program I ρ Unit) (F : Behaviour I) :
    Nat → List (Asked I) → Strand I ρ α → Option (List (Asked I) × α × List ρ)
  | 0, _, _ => none
  | _ + 1, _, ⟨.done a, owed⟩ => some ([], a, owed)
  | n + 1, h, ⟨.call c k, owed⟩ =>
    (trial settle F n (h ++ [⟨c, F h c⟩]) ⟨k (F h c), owed⟩).map fun r => (⟨c, F h c⟩ :: r.1, r.2)
  | n + 1, h, ⟨.owe r p, owed⟩ => trial settle F n h ⟨p, r :: owed⟩
  | n + 1, h, ⟨.settle p, r :: owed⟩ => trial settle F n h ⟨(settle r).bind fun _ => p, owed⟩
  | n + 1, h, ⟨.settle p, []⟩ => trial settle F n h ⟨p, []⟩

theorem Ends.of_trial {n : Nat} (ht : trial settle F n h s = some (t, a, o)) :
    Ends settle F h s t a o := by
  induction n generalizing h s t with
  | zero => cases ht
  | succ n ih =>
    obtain ⟨code, owed⟩ := s
    cases code with
    | done b =>
      cases ht
      exact .done
    | call c k =>
      obtain ⟨⟨u, b, o'⟩, hu, hr⟩ := Option.map_eq_some_iff.1 ht
      cases hr
      exact .call (ih hu)
    | owe r p => exact .owe (ih ht)
    | settle p =>
      cases owed with
      | nil => exact .clear (ih ht)
      | cons r owed => exact .settle (ih ht)

/-- What is computed of a run. -/
theorem Ends.eq_of_trial {n : Nat} {f : List (Asked I) × α × List ρ → β} {b : β}
    (he : Ends settle F h s t a o) (ht : (trial settle F n h s).map f = some b) :
    f (t, a, o) = b := by
  obtain ⟨⟨u, a', o'⟩, hu, rfl⟩ := Option.map_eq_some_iff.1 ht
  obtain ⟨rfl, rfl, rfl⟩ := he.unique (.of_trial hu)
  rfl

/-- However its calls are answered, a program comes to its end. -/
theorem Always.ends {next : Φ → Asked I → Φ} {ok : Φ → List ρ → I.Call → Prop}
    {Q : α → Φ → List ρ → Prop} {φ : Φ} (hs : Always settle next ok Q φ s)
    (F : Behaviour I) (h : List (Asked I)) :
    ∃ t a o, Ends settle F h s t a o ∧ Q a (t.foldl next φ) o := by
  induction hs generalizing h with
  | done hq => exact ⟨[], _, _, .done, hq⟩
  | @call φ c k owed _ _ ih =>
    obtain ⟨t, a, o, he, hq⟩ := ih (F h c) (h ++ [⟨c, F h c⟩])
    exact ⟨_, a, o, .call he, hq⟩
  | owe _ ih =>
    obtain ⟨t, a, o, he, hq⟩ := ih h
    exact ⟨t, a, o, .owe he, hq⟩
  | settle _ ih =>
    obtain ⟨t, a, o, he, hq⟩ := ih h
    exact ⟨t, a, o, .settle he, hq⟩
  | clear _ ih =>
    obtain ⟨t, a, o, he, hq⟩ := ih h
    exact ⟨t, a, o, .clear he, hq⟩

end

/-- The calls of the trace are answered as the behaviour answers them after the history. -/
def Answered (F : Behaviour I) : List (Asked I) → List (Asked I) → Prop
  | _, [] => True
  | h, e :: t => e.answer = F h e.call ∧ Answered F (h ++ [e]) t

section

variable {settle : ρ → Program I ρ Unit} {F : Behaviour I} {h t u : List (Asked I)}

theorem answered_append : Answered F h (t ++ u) ↔ Answered F h t ∧ Answered F (h ++ t) u := by
  induction t generalizing h with
  | nil => simp [Answered]
  | cons e t ih =>
    rw [List.cons_append, Answered, Answered, ih, and_assoc, ← List.append_cons]

theorem Ends.answered {s : Strand I ρ α} {a : α} {o : List ρ} (he : Ends settle F h s t a o) :
    Answered F h t := by
  induction he with
  | done => trivial
  | call _ ih => exact ⟨rfl, ih⟩
  | owe _ ih => exact ih
  | settle _ ih => exact ih
  | clear _ ih => exact ih

end

/-! ## What all traces have in common -/

section

variable {settle : ρ → Program I ρ Unit}

/-- Whoever answers, the trace of the program and what it returns satisfy `P`, and it owes nothing
that it did not owe before. -/
def Yields (settle : ρ → Program I ρ Unit) (P : List (Asked I) → α → Prop) (p : Program I ρ α) :
    Prop :=
  ∀ t owed, Always settle (fun t e => t ++ [e]) (fun _ _ _ => True)
    (fun a t' o => o = owed ∧ ∃ u, t' = t ++ u ∧ P u a) t ⟨p, owed⟩

namespace Yields

variable {P P' : List (Asked I) → α → Prop} {Q : List (Asked I) → β → Prop} {p : Program I ρ α}
  {a : α}

theorem mono (hp : Yields settle P p) (h : ∀ u a, P u a → P' u a) : Yields settle P' p := by
  intro t owed
  refine (hp t owed).mono ?_
  rintro a t' o ⟨ho, u, ht, hu⟩
  exact ⟨ho, u, ht, h u a hu⟩

theorem done (h : P [] a) : Yields settle P (.done a) :=
  fun t _ => .done ⟨rfl, [], (List.append_nil t).symm, h⟩

theorem call {c : I.Call} {k : I.Answer c → Program I ρ α}
    (hk : ∀ x, Yields settle (fun u a => P (⟨c, x⟩ :: u) a) (k x)) :
    Yields settle P (.call c k) := by
  intro t owed
  refine .call trivial fun x => (hk x _ owed).mono ?_
  rintro a t' o ⟨ho, u, rfl, hu⟩
  exact ⟨ho, ⟨c, x⟩ :: u, (List.append_cons t _ u).symm, hu⟩

theorem bind {f : α → Program I ρ β} (hp : Yields settle P p)
    (hf : ∀ a u, P u a → Yields settle (fun v b => Q (u ++ v) b) (f a)) :
    Yields settle Q (p.bind f) := by
  intro t owed
  refine (hp t owed).bind ?_
  rintro a t' o ⟨rfl, u, rfl, hu⟩
  refine (hf a u hu _ o).mono ?_
  rintro b t' o' ⟨ho, v, rfl, hv⟩
  exact ⟨ho, u ++ v, List.append_assoc .., hv⟩

theorem owing {r : ρ} {P' : List (Asked I) → α → Prop} (hp : Yields settle P p)
    (hr : ∀ a u, P u a → Yields settle (fun v _ => P' (u ++ v) a) (settle r)) :
    Yields settle P' (p.owing r) := by
  intro t owed
  refine Always.owing (R := fun a t' => ∃ u, t' = t ++ u ∧ P u a) ((hp t (r :: owed)).mono ?_) ?_
  · rintro a t' o ⟨ho, hu⟩
    exact ⟨hu, ho⟩
  · rintro a t' ⟨u, rfl, hu⟩
    refine (hr a u hu _ owed).mono ?_
    rintro _ t' o ⟨ho, v, rfl, hv⟩
    exact ⟨ho, u ++ v, List.append_assoc .., hv⟩

/-- The trace of a program that has ended. -/
theorem of_leads {t : List (Asked I)} {s : Strand I ρ α} (hp : Yields settle P p)
    (hl : Leads settle ⟨p, []⟩ t s) (ha : s.result? = some a) : P t a := by
  obtain ⟨-, u, hu, hP⟩ := ((hp [] []).leads hl).end_of_result ha
  have ht : ∀ l, t.foldl (fun t e => t ++ [e]) l = l ++ t := by
    clear hl hu
    induction t with
    | nil => exact fun l => (List.append_nil l).symm
    | cons e t ih => exact fun l => (ih _).trans (List.append_cons l e t).symm
  rw [ht] at hu
  rw [← List.nil_append t, hu, List.nil_append]
  exact hP

theorem of_ends {F : Behaviour I} {h t : List (Asked I)} {o : List ρ} (hp : Yields settle P p)
    (he : Ends settle F h ⟨p, []⟩ t a o) : P t a :=
  hp.of_leads he.leads rfl

/-- Whoever answers, the program comes to its end. -/
theorem ends (hp : Yields settle P p) (F : Behaviour I) (h : List (Asked I)) :
    ∃ t a, Ends settle F h ⟨p, []⟩ t a [] ∧ P t a := by
  obtain ⟨t, a, o, he, rfl, -⟩ := (hp [] []).ends F h
  exact ⟨t, a, he, hp.of_ends he⟩

end Yields

end

/-! ## Two runs of one program -/

/-- After histories in `R` the two behaviours answer the calls in `C` alike, and the histories
remain in `R`. -/
structure Agree (F F' : Behaviour I) (R : List (Asked I) → List (Asked I) → Prop)
    (C : I.Call → Prop) : Prop where
  answer : ∀ h h' c, R h h' → C c → F' h' c = F h c
  keep : ∀ h h' e, R h h' → R (h ++ [e]) (h' ++ [e])

/-- After histories in `R` the program has the same run under both behaviours, with calls in `C`
only. -/
def Concurs (settle : ρ → Program I ρ Unit) (F F' : Behaviour I)
    (R : List (Asked I) → List (Asked I) → Prop) (C : I.Call → Prop) (p : Program I ρ α) : Prop :=
  ∀ h h', R h h' → ∃ t a, (∀ e ∈ t, C e.call) ∧ R (h ++ t) (h' ++ t) ∧
    ∀ owed owed', Ends settle F h ⟨p, owed⟩ t a owed ∧ Ends settle F' h' ⟨p, owed'⟩ t a owed'

namespace Concurs

variable {settle : ρ → Program I ρ Unit} {F F' : Behaviour I}
  {R : List (Asked I) → List (Asked I) → Prop} {C : I.Call → Prop} {p : Program I ρ α}

theorem done (a : α) : Concurs settle F F' R C (.done a : Program I ρ α) := by
  intro h h' hR
  refine ⟨[], a, nofun, ?_, fun _ _ => ⟨.done, .done⟩⟩
  rw [List.append_nil, List.append_nil]
  exact hR

theorem call {c : I.Call} {k : I.Answer c → Program I ρ α} (hF : Agree F F' R C) (hc : C c)
    (hk : ∀ x, Concurs settle F F' R C (k x)) : Concurs settle F F' R C (.call c k) := by
  intro h h' hR
  have hx : F' h' c = F h c := hF.answer h h' c hR hc
  obtain ⟨t, a, ht, hR', he⟩ := hk (F h c) _ _ (hF.keep h h' ⟨c, F h c⟩ hR)
  rw [← List.append_cons, ← List.append_cons] at hR'
  refine ⟨⟨c, F h c⟩ :: t, a, List.forall_mem_cons.2 ⟨hc, ht⟩, hR', fun owed owed' => ?_⟩
  exact ⟨.call (he owed owed').1, .ask hx (he owed owed').2⟩

theorem bind {f : α → Program I ρ β} (hp : Concurs settle F F' R C p)
    (hf : ∀ a, Concurs settle F F' R C (f a)) : Concurs settle F F' R C (p.bind f) := by
  intro h h' hR
  obtain ⟨t, a, ht, hR₁, he⟩ := hp h h' hR
  obtain ⟨u, b, hu, hR₂, he'⟩ := hf a _ _ hR₁
  rw [List.append_assoc, List.append_assoc] at hR₂
  refine ⟨t ++ u, b, List.forall_mem_append.2 ⟨ht, hu⟩, hR₂, fun owed owed' => ?_⟩
  exact ⟨(he owed owed').1.bind (he' owed owed').1, (he owed owed').2.bind (he' owed owed').2⟩

theorem owing {r : ρ} (hp : Concurs settle F F' R C p) (hr : Concurs settle F F' R C (settle r)) :
    Concurs settle F F' R C (p.owing r) := by
  intro h h' hR
  obtain ⟨t, a, ht, hR₁, he⟩ := hp h h' hR
  obtain ⟨u, _, hu, hR₂, he'⟩ := hr _ _ hR₁
  rw [List.append_assoc, List.append_assoc] at hR₂
  refine ⟨t ++ u, a, List.forall_mem_append.2 ⟨ht, hu⟩, hR₂, fun owed owed' => ?_⟩
  exact ⟨(he _ (r :: owed')).1.owing (he' owed owed').1,
    (he (r :: owed) _).2.owing (he' owed owed').2⟩

end Concurs

/-! ## Programs that make certain calls only -/

/-- Whatever is answered, the program makes calls in `C` only, and owes nothing of its own. -/
inductive Confined (C : I.Call → Prop) : Program I ρ α → Prop
  | done (a : α) : Confined C (.done a)
  | call {c : I.Call} {k : I.Answer c → Program I ρ α} :
    C c → (∀ x, Confined C (k x)) → Confined C (.call c k)

namespace Confined

variable {C C' : I.Call → Prop} {p : Program I ρ α}

theorem mono (hp : Confined C p) (hC : ∀ c, C c → C' c) : Confined C' p := by
  induction hp with
  | done a => exact .done a
  | call hc _ ih => exact .call (hC _ hc) ih

theorem concurs {settle : ρ → Program I ρ Unit} {F F' : Behaviour I}
    {R : List (Asked I) → List (Asked I) → Prop} (hp : Confined C p) (hF : Agree F F' R C) :
    Concurs settle F F' R C p := by
  induction hp with
  | done a => exact .done a
  | call hc _ ih => exact .call hF hc ih

end Confined

/-! ## Two runs of two programs -/

/-- After histories whose entries are in `K`, one by one, both programs come to their end under
their behaviours, with traces of which the same holds and with the same result. -/
def Parallel (settle : ρ → Program I ρ Unit) (F F' : Behaviour I) (K : Asked I → Asked I → Prop)
    (p p' : Program I ρ α) : Prop :=
  ∀ h h', List.Forall₂ K h h' → ∃ t t' a, List.Forall₂ K t t' ∧
    ∀ owed owed', Ends settle F h ⟨p, owed⟩ t a owed ∧ Ends settle F' h' ⟨p', owed'⟩ t' a owed'

namespace Parallel

variable {settle : ρ → Program I ρ Unit} {F F' : Behaviour I} {K : Asked I → Asked I → Prop}
  {p p' : Program I ρ α}

theorem done (a : α) : Parallel settle F F' K (.done a : Program I ρ α) (.done a) :=
  fun _ _ _ => ⟨[], [], a, .nil, fun _ _ => ⟨.done, .done⟩⟩

theorem call {c c' : I.Call} {k : I.Answer c → Program I ρ α} {k' : I.Answer c' → Program I ρ α}
    (hc : ∀ h h', List.Forall₂ K h h' → K ⟨c, F h c⟩ ⟨c', F' h' c'⟩ ∧
      Parallel settle F F' K (k (F h c)) (k' (F' h' c'))) :
    Parallel settle F F' K (.call c k) (.call c' k') := by
  intro h h' hR
  obtain ⟨hnow, hk⟩ := hc h h' hR
  obtain ⟨t, t', a, ht, he⟩ := hk _ _ (List.rel_append hR (.cons hnow .nil))
  exact ⟨_, _, a, .cons hnow ht,
    fun owed owed' => ⟨.call (he owed owed').1, .call (he owed owed').2⟩⟩

theorem bind {f f' : α → Program I ρ β} (hp : Parallel settle F F' K p p')
    (hf : ∀ a, Parallel settle F F' K (f a) (f' a)) :
    Parallel settle F F' K (p.bind f) (p'.bind f') := by
  intro h h' hR
  obtain ⟨t, t', a, ht, he⟩ := hp h h' hR
  obtain ⟨u, u', b, hu, he'⟩ := hf a _ _ (List.rel_append hR ht)
  refine ⟨t ++ u, t' ++ u', b, List.rel_append ht hu, fun owed owed' => ?_⟩
  exact ⟨(he owed owed').1.bind (he' owed owed').1, (he owed owed').2.bind (he' owed owed').2⟩

theorem owing {r r' : ρ} (hp : Parallel settle F F' K p p')
    (hr : Parallel settle F F' K (settle r) (settle r')) :
    Parallel settle F F' K (p.owing r) (p'.owing r') := by
  intro h h' hR
  obtain ⟨t, t', a, ht, he⟩ := hp h h' hR
  obtain ⟨u, u', _, hu, he'⟩ := hr _ _ (List.rel_append hR ht)
  refine ⟨t ++ u, t' ++ u', a, List.rel_append ht hu, fun owed owed' => ?_⟩
  exact ⟨(he (r :: owed) owed').1.owing (he' owed owed').1,
    (he owed (r' :: owed')).2.owing (he' owed owed').2⟩

/-- A program all of whose calls both behaviours answer alike. -/
theorem of_concurs {C : I.Call → Prop} (hK : ∀ e, K e e)
    (hp : Concurs settle F F' (List.Forall₂ K) C p) : Parallel settle F F' K p p := by
  intro h h' hR
  obtain ⟨t, a, -, -, he⟩ := hp h h' hR
  exact ⟨t, t, a, List.forall₂_same.2 fun e _ => hK e, he⟩

end Parallel

end Strand

end Turnstile
