import Turnstile.Program

/-!
# Programs on their way

A `Strand` is what is left of a program together with what it owes. `Leads` relates two strands by
the calls that are made and answered between them; nothing restricts the answers, so a statement
over all traces of `Leads` is one about every collaborator.

`Always` is the program logic for such traces: a state is carried along the trace, each call must be
made under a condition on this state, and the program must end under another one. It is proved
along the tree of a program (`Always.bind`, `Always.owing`), and `Always.leads` turns it into a
fact about every strand that a program leads to.
-/

namespace Turnstile

instance decidableEqExcept {ε α : Type} [DecidableEq ε] [DecidableEq α] :
    DecidableEq (Except ε α)
  | .ok a, .ok b => decidable_of_iff (a = b) ⟨congrArg Except.ok, Except.ok.inj⟩
  | .error e, .error f => decidable_of_iff (e = f) ⟨congrArg Except.error, Except.error.inj⟩
  | .ok _, .error _ => isFalse nofun
  | .error _, .ok _ => isFalse nofun

theorem getElem?_set_cases {α : Type} {l : List α} {i j : Nat} {a b : α}
    (h : (l.set i a)[j]? = some b) : j = i ∧ b = a ∨ j ≠ i ∧ l[j]? = some b := by
  rw [List.getElem?_set] at h
  split at h
  · rename_i hij
    split at h
    · exact .inl ⟨hij.symm, (Option.some.inj h).symm⟩
    · cases h
  · rename_i hij
    exact .inr ⟨fun hji => hij hji.symm, h⟩

theorem getElem?_concat_cases {α : Type} {l : List α} {i : Nat} {a b : α}
    (h : (l ++ [a])[i]? = some b) : l[i]? = some b ∨ i = l.length ∧ b = a := by
  rcases Nat.lt_trichotomy i l.length with hi | rfl | hi
  · rw [List.getElem?_append_left hi] at h
    exact .inl h
  · rw [List.getElem?_concat_length] at h
    exact .inr ⟨rfl, (Option.some.inj h).symm⟩
  · rw [List.getElem?_eq_none (List.length_append ▸ hi)] at h
    cases h

/-- A call and the answer to it. -/
structure Asked (I : Interface) where
  call : I.Call
  answer : I.Answer call

/-- A program on its way: what is left of it, and what it owes, latest first. -/
structure Strand (I : Interface) (ρ α : Type) where
  code : Program I ρ α
  owed : List ρ

namespace Strand

variable {I : Interface} {ρ α β Φ : Type}

/-- The call that comes next, if it is the next node. -/
def call? (s : Strand I ρ α) : Option I.Call :=
  match s.code with
  | .call c _ => some c
  | _ => none

/-- What the program returned, if it has ended. -/
def result? (s : Strand I ρ α) : Option α :=
  match s.code with
  | .done a => some a
  | _ => none

/-- One node of a program, and the call that it makes, if any. -/
inductive Step (settle : ρ → Program I ρ Unit) :
    Strand I ρ α → List (Asked I) → Strand I ρ α → Prop
  | call (c : I.Call) (k : I.Answer c → Program I ρ α) (owed : List ρ) (a : I.Answer c) :
    Step settle ⟨.call c k, owed⟩ [⟨c, a⟩] ⟨k a, owed⟩
  | owe (r : ρ) (p : Program I ρ α) (owed : List ρ) :
    Step settle ⟨.owe r p, owed⟩ [] ⟨p, r :: owed⟩
  | settle (r : ρ) (p : Program I ρ α) (owed : List ρ) :
    Step settle ⟨.settle p, r :: owed⟩ [] ⟨(settle r).bind fun _ => p, owed⟩
  | clear (p : Program I ρ α) : Step settle ⟨.settle p, []⟩ [] ⟨p, []⟩

/-- The first strand makes the calls of the trace, gets the answers in it, and is then the second
strand. -/
inductive Leads (settle : ρ → Program I ρ Unit) (s : Strand I ρ α) :
    List (Asked I) → Strand I ρ α → Prop
  | here : Leads settle s [] s
  | step {t e : List (Asked I)} {s' s'' : Strand I ρ α} :
    Leads settle s t s' → Step settle s' e s'' → Leads settle s (t ++ e) s''

/-- However the calls are answered, every call is made under `ok` and the program ends under `Q`.
The state `φ` goes along the trace by `next`. -/
inductive Always (settle : ρ → Program I ρ Unit) (next : Φ → Asked I → Φ)
    (ok : Φ → List ρ → I.Call → Prop) (Q : α → Φ → List ρ → Prop) : Φ → Strand I ρ α → Prop
  | done {φ : Φ} {a : α} {owed : List ρ} : Q a φ owed → Always settle next ok Q φ ⟨.done a, owed⟩
  | call {φ : Φ} {c : I.Call} {k : I.Answer c → Program I ρ α} {owed : List ρ} :
    ok φ owed c → (∀ a, Always settle next ok Q (next φ ⟨c, a⟩) ⟨k a, owed⟩) →
    Always settle next ok Q φ ⟨.call c k, owed⟩
  | owe {φ : Φ} {r : ρ} {p : Program I ρ α} {owed : List ρ} :
    Always settle next ok Q φ ⟨p, r :: owed⟩ → Always settle next ok Q φ ⟨.owe r p, owed⟩
  | settle {φ : Φ} {r : ρ} {p : Program I ρ α} {owed : List ρ} :
    Always settle next ok Q φ ⟨(settle r).bind fun _ => p, owed⟩ →
    Always settle next ok Q φ ⟨.settle p, r :: owed⟩
  | clear {φ : Φ} {p : Program I ρ α} :
    Always settle next ok Q φ ⟨p, []⟩ → Always settle next ok Q φ ⟨.settle p, []⟩

variable {settle : ρ → Program I ρ Unit} {next : Φ → Asked I → Φ}
  {ok : Φ → List ρ → I.Call → Prop} {Q : α → Φ → List ρ → Prop} {φ : Φ} {s s' : Strand I ρ α}

/-- The next node with a call, where `f` answers. -/
def node (settle : ρ → Program I ρ Unit) (f : (c : I.Call) → I.Answer c) :
    Strand I ρ α → List (Asked I) × Strand I ρ α
  | ⟨.done a, owed⟩ => ([], ⟨.done a, owed⟩)
  | ⟨.call c k, owed⟩ => ([⟨c, f c⟩], ⟨k (f c), owed⟩)
  | ⟨.owe r p, owed⟩ => ([], ⟨p, r :: owed⟩)
  | ⟨.settle p, r :: owed⟩ => ([], ⟨(settle r).bind fun _ => p, owed⟩)
  | ⟨.settle p, []⟩ => ([], ⟨p, []⟩)

/-- The first `n` nodes and the calls made in them, where `f` answers. -/
def play (settle : ρ → Program I ρ Unit) (f : (c : I.Call) → I.Answer c) (s : Strand I ρ α) :
    Nat → List (Asked I) × Strand I ρ α
  | 0 => ([], s)
  | n + 1 =>
    let (t, s) := play settle f s n
    let (e, s) := s.node settle f
    (t ++ e, s)

theorem play_leads (f : (c : I.Call) → I.Answer c) (s : Strand I ρ α) (n : Nat) :
    Leads settle s (s.play settle f n).1 (s.play settle f n).2 := by
  induction n with
  | zero => exact .here
  | succ n ih =>
    rw [play]
    generalize s.play settle f n = r at ih ⊢
    obtain ⟨t, code, owed⟩ := r
    cases code with
    | done a => simpa [node] using ih
    | call c k => exact ih.step (.call c k owed (f c))
    | owe r p => exact ih.step (.owe r p owed)
    | settle p =>
      cases owed with
      | nil => exact ih.step (.clear p)
      | cons r owed => exact ih.step (.settle r p owed)

namespace Always

theorem mono {Q' : α → Φ → List ρ → Prop} (h : Always settle next ok Q φ s)
    (hQ : ∀ a φ owed, Q a φ owed → Q' a φ owed) : Always settle next ok Q' φ s := by
  induction h with
  | done h => exact .done (hQ _ _ _ h)
  | call hok _ ih => exact .call hok ih
  | owe _ ih => exact .owe ih
  | settle _ ih => exact .settle ih
  | clear _ ih => exact .clear ih

theorem bind {p : Program I ρ α} {f : α → Program I ρ β} {owed : List ρ}
    {Q' : β → Φ → List ρ → Prop} (h : Always settle next ok Q φ ⟨p, owed⟩)
    (hf : ∀ a φ owed, Q a φ owed → Always settle next ok Q' φ ⟨f a, owed⟩) :
    Always settle next ok Q' φ ⟨p.bind f, owed⟩ := by
  generalize hs : (⟨p, owed⟩ : Strand I ρ α) = s at h
  induction h generalizing p owed with
  | done h => cases hs; exact hf _ _ _ h
  | call hok _ ih => cases hs; exact .call hok fun a => ih a rfl
  | owe _ ih => cases hs; exact .owe (ih rfl)
  | settle _ ih =>
    cases hs
    refine .settle ?_
    rw [← Program.bind_assoc]
    exact ih rfl
  | clear _ ih => cases hs; exact .clear (ih rfl)

/-- A program that owes `r` while it runs, given that it leaves what was owed before alone. -/
theorem owing {p : Program I ρ α} {r : ρ} {owed : List ρ} {R : α → Φ → Prop}
    (h : Always settle next ok (fun a φ o => R a φ ∧ o = r :: owed) φ ⟨p, r :: owed⟩)
    (hr : ∀ a φ, R a φ →
      Always settle next ok (fun _ φ o => Q a φ o) φ ⟨settle r, owed⟩) :
    Always settle next ok Q φ ⟨p.owing r, owed⟩ := by
  refine .owe (h.bind fun a φ o ⟨ha, ho⟩ => ?_)
  subst ho
  exact .settle ((hr a φ ha).bind fun _ φ o hq => .done hq)

/-- The same program with another state along the trace, as long as `R` relates the two. -/
theorem simulate {Ψ : Type} {next' : Ψ → Asked I → Ψ} {ok' : Ψ → List ρ → I.Call → Prop}
    {Q' : α → Ψ → List ρ → Prop} {R : Φ → Ψ → Prop} {ψ : Ψ} (h : Always settle next ok Q φ s)
    (hr : R φ ψ)
    (hok : ∀ φ ψ owed c, R φ ψ → ok φ owed c →
      ok' ψ owed c ∧ ∀ a, R (next φ ⟨c, a⟩) (next' ψ ⟨c, a⟩))
    (hQ : ∀ a φ ψ owed, R φ ψ → Q a φ owed → Q' a ψ owed) : Always settle next' ok' Q' ψ s := by
  induction h generalizing ψ with
  | done h => exact .done (hQ _ _ _ _ hr h)
  | call h _ ih =>
    obtain ⟨hc, hn⟩ := hok _ _ _ _ hr h
    exact .call hc fun a => ih a (hn a)
  | owe _ ih => exact .owe (ih hr)
  | settle _ ih => exact .settle (ih hr)
  | clear _ ih => exact .clear (ih hr)

theorem step {t : List (Asked I)} (h : Always settle next ok Q φ s) (hs : Step settle s t s') :
    Always settle next ok Q (t.foldl next φ) s' := by
  cases hs with
  | call c k owed a => cases h with | call _ hk => exact hk a
  | owe r p owed => cases h with | owe h => exact h
  | settle r p owed => cases h with | settle h => exact h
  | clear p => cases h with | clear h => exact h

theorem leads {t : List (Asked I)} (h : Always settle next ok Q φ s) (hl : Leads settle s t s') :
    Always settle next ok Q (t.foldl next φ) s' := by
  induction hl with
  | here => exact h
  | step _ hs ih => rw [List.foldl_append]; exact ih.step hs

theorem ok_of_call {c : I.Call} (h : Always settle next ok Q φ s) (hc : s.call? = some c) :
    ok φ s.owed c := by
  cases h with
  | call hok _ => cases hc; exact hok
  | _ => cases hc

theorem end_of_result {a : α} (h : Always settle next ok Q φ s) (ha : s.result? = some a) :
    Q a φ s.owed := by
  cases h with
  | done h => cases ha; exact h
  | _ => cases ha

end Always

end Strand

theorem call?_of_step {I : Interface} {ρ α : Type} {settle : ρ → Program I ρ Unit}
    {t t' : Strand I ρ α} (hs : t.Step settle [] t') : t.call? = none := by
  cases hs <;> rfl

theorem call?_of_step_call {I : Interface} {ρ α : Type} {settle : ρ → Program I ρ Unit}
    {t t' : Strand I ρ α} {e : Asked I} (hs : t.Step settle [e] t') : t.call? = some e.call := by
  cases hs
  rfl

end Turnstile
