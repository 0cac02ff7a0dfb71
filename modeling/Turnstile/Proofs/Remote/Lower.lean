import Turnstile.Proofs.Strand

/-!
# Programs at another interface

`Tame` bounds what a program calls and owes. A tame program that is lowered to another interface,
where each call is carried out by a program that `Stays` in a state, stays in this state itself.
-/

namespace Turnstile

namespace Program

variable {I J : Interface} {ρ σ α β : Type}

theorem lower_bind (f : (c : I.Call) → Program J σ (I.Answer c)) (g : ρ → σ) (p : Program I ρ α)
    (q : α → Program I ρ β) :
    (p.bind q).lower f g = (p.lower f g).bind fun a => (q a).lower f g := by
  induction p with
  | done a => rfl
  | call c k ih =>
    show (f c).bind (fun x => ((k x).bind q).lower f g) = _
    rw [funext ih, ← bind_assoc]
    rfl
  | owe r p ih => exact congrArg (owe (g r)) ih
  | settle p ih => exact congrArg settle ih

theorem lower_owing (f : (c : I.Call) → Program J σ (I.Answer c)) (g : ρ → σ) (p : Program I ρ α)
    (r : ρ) : (p.owing r).lower f g = (p.lower f g).owing (g r) := by
  show owe (g r) ((p.bind fun a => settle (done a)).lower f g) = _
  rw [lower_bind]
  rfl

/-- The program makes only calls in `C`, owes only what is in `R`, and settles what it owes and
`d` obligations from before. -/
inductive Tame (C : I.Call → Prop) (R : ρ → Prop) : Nat → Program I ρ α → Prop
  | done (a : α) : Tame C R 0 (.done a)
  | call {d : Nat} {c : I.Call} {k : I.Answer c → Program I ρ α} :
    C c → (∀ a, Tame C R d (k a)) → Tame C R d (.call c k)
  | owe {d : Nat} {r : ρ} {p : Program I ρ α} : R r → Tame C R (d + 1) p → Tame C R d (.owe r p)
  | settle {d : Nat} {p : Program I ρ α} : Tame C R d p → Tame C R (d + 1) (.settle p)

namespace Tame

variable {C : I.Call → Prop} {R : ρ → Prop} {d e : Nat} {p : Program I ρ α}

theorem bind {q : α → Program I ρ β} (hp : p.Tame C R d) (hq : ∀ a, (q a).Tame C R e) :
    (p.bind q).Tame C R (d + e) := by
  induction hp with
  | done a =>
    rw [Nat.zero_add]
    exact hq a
  | call hc _ ih => exact .call hc ih
  | owe hr _ ih =>
    refine .owe hr ?_
    rw [Nat.add_right_comm]
    exact ih
  | settle _ ih =>
    rw [Nat.add_right_comm]
    exact .settle ih

theorem andThen {q : α → Program I ρ β} (hp : p.Tame C R 0) (hq : ∀ a, (q a).Tame C R e) :
    (p.bind q).Tame C R e := by
  rw [← Nat.zero_add e]
  exact hp.bind hq

theorem owing {r : ρ} (hp : p.Tame C R 0) (hr : R r) : (p.owing r).Tame C R 0 :=
  .owe hr (hp.bind fun a => .settle (.done a))

end Tame

end Program

namespace Strand

variable {I J : Interface} {ρ σ α β Φ : Type} {settle : σ → Program J σ Unit}
  {next : Φ → Asked J → Φ} {ok : Φ → List σ → J.Call → Prop} {P : List σ → Prop} {φ : Φ}

/-- However the calls are answered, the state stays as it is, and so does what is owed, if `P` is
true of it. -/
def Stays (settle : σ → Program J σ Unit) (next : Φ → Asked J → Φ)
    (ok : Φ → List σ → J.Call → Prop) (P : List σ → Prop) (φ : Φ) (p : Program J σ α) : Prop :=
  ∀ owed, P owed → Always settle next ok (fun _ φ' o => φ' = φ ∧ o = owed) φ ⟨p, owed⟩

namespace Stays

variable {p : Program J σ α}

theorem done (a : α) : Stays settle next ok P φ (.done a : Program J σ α) :=
  fun _ _ => .done ⟨rfl, rfl⟩

theorem call {c : J.Call} {k : J.Answer c → Program J σ α} (hok : ∀ owed, P owed → ok φ owed c)
    (hn : ∀ a, next φ ⟨c, a⟩ = φ) (hk : ∀ a, Stays settle next ok P φ (k a)) :
    Stays settle next ok P φ (.call c k) := by
  intro owed ho
  refine .call (hok owed ho) fun a => ?_
  rw [hn]
  exact hk a owed ho

theorem bind {q : α → Program J σ β} (hp : Stays settle next ok P φ p)
    (hq : ∀ a, Stays settle next ok P φ (q a)) : Stays settle next ok P φ (p.bind q) := by
  intro owed hP
  refine (hp owed hP).bind fun a φ' o ⟨hφ, ho⟩ => ?_
  subst hφ ho
  exact hq a o hP

theorem owing {r : σ} (hp : Stays settle next ok P φ p) (hr : Stays settle next ok P φ (settle r))
    (hP : ∀ owed, P owed → P (r :: owed)) : Stays settle next ok P φ (p.owing r) := by
  intro owed ho
  refine Always.owing (R := fun _ φ' => φ' = φ) (hp (r :: owed) (hP owed ho)) fun _ φ' hφ => ?_
  subst hφ
  exact hr owed ho

section

variable {q : Program I ρ α} {C : I.Call → Prop} {R : ρ → Prop} {d : Nat}
  {f : (c : I.Call) → Program J σ (I.Answer c)} {g : ρ → σ}

/-- On the way, what a program owes itself lies on top of what was owed before. -/
theorem lower_on (hq : q.Tame C R d) (hf : ∀ c, C c → Stays settle next ok P φ (f c))
    (hg : ∀ r, R r → Stays settle next ok P φ (settle (g r)))
    (hP : ∀ r, R r → ∀ owed, P owed → P (g r :: owed)) (rs : List ρ) (hd : rs.length = d)
    (hrs : ∀ r ∈ rs, R r) (owed : List σ) (ho : P owed) :
    Always settle next ok (fun _ φ' o => φ' = φ ∧ o = owed) φ
      ⟨q.lower f g, rs.map g ++ owed⟩ := by
  have hall (rs : List ρ) (hrs : ∀ r ∈ rs, R r) : P (rs.map g ++ owed) := by
    induction rs with
    | nil => exact ho
    | cons r rs ih =>
      rw [List.forall_mem_cons] at hrs
      exact hP r hrs.1 _ (ih hrs.2)
  induction hq generalizing rs with
  | done a =>
    rw [List.eq_nil_of_length_eq_zero hd]
    exact .done ⟨rfl, rfl⟩
  | call hc _ ih =>
    refine (hf _ hc (rs.map g ++ owed) (hall rs hrs)).bind fun a φ' o ⟨hφ, ho⟩ => ?_
    subst hφ ho
    exact ih a rs hd hrs
  | @owe _ r _ hr _ ih =>
    exact .owe (ih (r :: rs) (congrArg Nat.succ hd) (List.forall_mem_cons.2 ⟨hr, hrs⟩))
  | settle _ ih =>
    cases rs with
    | nil => cases hd
    | cons r rs =>
      rw [List.forall_mem_cons] at hrs
      refine .settle ((hg r hrs.1 (rs.map g ++ owed) (hall rs hrs.2)).bind
        fun a φ' o ⟨hφ, ho⟩ => ?_)
      subst hφ ho
      exact ih rs (Nat.succ.inj hd) hrs.2

theorem lower (hq : q.Tame C R 0) (hf : ∀ c, C c → Stays settle next ok P φ (f c))
    (hg : ∀ r, R r → Stays settle next ok P φ (settle (g r)))
    (hP : ∀ r, R r → ∀ owed, P owed → P (g r :: owed)) :
    Stays settle next ok P φ (q.lower f g) :=
  fun owed ho => lower_on hq hf hg hP [] rfl nofun owed ho

end

end Stays

end Strand

end Turnstile
