/-
  EightBit.Proofs.Sequence
  ────────────────────────
  **COMPUTATIONS THAT MAY FAIL, ONE AFTER ANOTHER.**

  Operands, characters and instructions are all read from left to right, and
  the first one that fails decides.  Here this is said once, for any list.

  Main results:
    • `mapM_eq_ok_iff`    — a list succeeds member by member;
    • `mapM_eq_error_iff` — a list fails as its first faulty member does;
    • `Outcome.bind`      — what holds after two computations in sequence;
    • `Outcome.mapM`      — and after one for every member of a list;
    • `Parallel.bind`     — what holds of two sequences side by side.
-/
import Mathlib.Data.List.Forall2

namespace EightBit

variable {α β γ ε : Type}

/-! ## §1. Two computations. -/

@[simp] theorem ok_bind (a : α) (f : α → Except ε β) : (Except.ok a >>= f) = f a := rfl

theorem pure_eq_ok_iff {a b : α} : (pure a : Except ε α) = .ok b ↔ a = b := by
  simp [pure, Except.pure]

theorem bind_eq_ok_iff {x : Except ε α} {f : α → Except ε β} {b : β} :
    (x >>= f) = .ok b ↔ ∃ a, x = .ok a ∧ f a = .ok b := by
  cases x <;> simp [bind, Except.bind]

theorem pure_ne_error {a : α} {e : ε} : (pure a : Except ε α) ≠ .error e := by
  simp [pure, Except.pure]

/-- What follows cannot fail so, and the first computation decides. -/
theorem bind_eq_error_iff_of_ne {x : Except ε α} {f : α → Except ε β} {e : ε}
    (hf : ∀ a, f a ≠ .error e) : (x >>= f) = .error e ↔ x = .error e := by
  cases x with
  | error e' => simp [bind, Except.bind]
  | ok a => exact ⟨fun h => absurd h (hf a), fun h => absurd h (by simp)⟩

theorem map_eq_ok_iff {x : Except ε α} {f : α → β} {b : β} :
    x.map f = .ok b ↔ ∃ a, x = .ok a ∧ f a = b := by
  cases x <;> simp [Except.map]

theorem map_eq_error_iff {x : Except ε α} {f : α → β} {e : ε} :
    x.map f = .error e ↔ x = .error e := by
  cases x <;> simp [Except.map]

theorem toOption_eq_some_iff {x : Except ε α} {a : α} : x.toOption = some a ↔ x = .ok a := by
  cases x <;> simp [Except.toOption]

theorem exists_of_toOption_map {x : Except ε α} {f : α → β} {b : β}
    (h : x.toOption.map f = some b) : ∃ a, x = .ok a ∧ f a = b := by
  obtain ⟨a, ha, hf⟩ := Option.map_eq_some_iff.1 h
  exact ⟨a, toOption_eq_some_iff.1 ha, hf⟩

/-- A computation that succeeds has no fault. -/
theorem eq_none_of_ok {x : Except ε α} {a : α} {fault? : Option ε} (hx : x = .ok a)
    (h : ∀ e, x = .error e ↔ fault? = some e) : fault? = none := by
  rw [Option.eq_none_iff_forall_ne_some]
  intro e he
  rw [(h e).2 he] at hx
  exact absurd hx (by simp)

/-! ## §2. Lists. -/

/-- A list succeeds when every member does, with the results in order. -/
theorem mapM_eq_ok_iff {f : α → Except ε β} {l : List α} {r : List β} :
    l.mapM f = .ok r ↔ List.Forall₂ (fun a b => f a = .ok b) l r := by
  induction l generalizing r with
  | nil => cases r <;> simp [pure, Except.pure]
  | cons a l ih =>
    rw [List.mapM_cons, bind_eq_ok_iff]
    constructor
    · rintro ⟨b, hb, h⟩
      obtain ⟨r', hr', heq⟩ := bind_eq_ok_iff.1 h
      cases heq
      exact .cons hb (ih.1 hr')
    · rintro (_ | ⟨hb, hr⟩)
      exact ⟨_, hb, bind_eq_ok_iff.2 ⟨_, ih.2 hr, rfl⟩⟩

/-- A list fails as its first faulty member does. -/
theorem mapM_eq_error_iff {f : α → Except ε β} {fault? : α → Option ε} {l : List α} {e : ε}
    (h : ∀ a ∈ l, ∀ e, f a = .error e ↔ fault? a = some e) :
    l.mapM f = .error e ↔ l.findSome? fault? = some e := by
  induction l with
  | nil => simp [pure, Except.pure]
  | cons a l ih =>
    have ih := ih fun b hb => h b (List.mem_cons_of_mem a hb)
    have ha := h a List.mem_cons_self
    rw [List.mapM_cons, List.findSome?_cons]
    -- the head decides if it fails, and leaves the rest to decide if not
    cases hf : f a with
    | error e' =>
      rw [(ha e').1 hf]
      simp [bind, Except.bind]
    | ok b =>
      rw [eq_none_of_ok hf ha, ← ih]
      cases l.mapM f <;> simp [bind, Except.bind, pure, Except.pure]

/-- What related members have in common, the lists have in common. -/
theorem map_eq_of_forall₂ {R : α → β → Prop} {l : List α} {r : List β} {g : β → γ} {g' : α → γ}
    (h : List.Forall₂ R l r) (hg : ∀ a b, R a b → g b = g' a) : r.map g = l.map g' := by
  induction h with
  | nil => rfl
  | cons hab _ ih => rw [List.map_cons, List.map_cons, hg _ _ hab, ih]

/-- What every member's result has in common with the member, the results have
in common with the list. -/
theorem map_eq_of_mapM {f : α → Except ε β} {l : List α} {r : List β} {g : β → γ} {g' : α → γ}
    (h : l.mapM f = .ok r) (hg : ∀ a b, f a = .ok b → g b = g' a) : r.map g = l.map g' :=
  map_eq_of_forall₂ (mapM_eq_ok_iff.1 h) hg

/-- Every member of the second list is matched by one of the first. -/
theorem exists_mem_of_forall₂ {R : α → β → Prop} {l : List α} {r : List β}
    (h : List.Forall₂ R l r) {b : β} (hb : b ∈ r) : ∃ a ∈ l, R a b := by
  induction h with
  | nil => exact absurd hb (by simp)
  | cons hab _ ih =>
    rcases List.mem_cons.1 hb with rfl | hb
    · exact ⟨_, List.mem_cons_self, hab⟩
    · obtain ⟨a, ha, hR⟩ := ih hb
      exact ⟨a, List.mem_cons_of_mem _ ha, hR⟩

/-- Every result is that of a member. -/
theorem exists_of_mem_mapM {f : α → Except ε β} {l : List α} {r : List β} (h : l.mapM f = .ok r)
    {b : β} (hb : b ∈ r) : ∃ a ∈ l, f a = .ok b :=
  exists_mem_of_forall₂ (mapM_eq_ok_iff.1 h) hb

/-! ## §3. What holds of an outcome. -/

/-- A result satisfies `post`, and a failure `bad`. -/
def Outcome (post : α → Prop) (bad : ε → Prop) : Except ε α → Prop
  | .ok a => post a
  | .error e => bad e

namespace Outcome

variable {post : α → Prop} {post' : β → Prop} {bad bad' : ε → Prop}

theorem of_ok {x : Except ε α} (hx : Outcome post bad x) {a : α} (h : x = .ok a) : post a := by
  subst h
  exact hx

theorem of_error {x : Except ε α} (hx : Outcome post bad x) {e : ε} (h : x = .error e) :
    bad e := by
  subst h
  exact hx

theorem mono {post₂ : α → Prop} {x : Except ε α} (hx : Outcome post bad x)
    (hpost : ∀ a, post a → post₂ a) (hbad : ∀ e, bad e → bad' e) : Outcome post₂ bad' x := by
  cases x with
  | error e => exact hbad e hx
  | ok a => exact hpost a hx

/-- What holds after two computations in sequence. -/
theorem bind {x : Except ε α} {f : α → Except ε β} (hx : Outcome post bad x)
    (hf : ∀ a, post a → Outcome post' bad (f a)) : Outcome post' bad (x >>= f) := by
  cases x with
  | error e => exact hx
  | ok a => exact hf a hx

theorem map {x : Except ε α} {f : α → β} (hx : Outcome post bad x)
    (hf : ∀ a, post a → post' (f a)) : Outcome post' bad (x.map f) := by
  cases x with
  | error e => exact hx
  | ok a => exact hf a hx

/-- What holds of the outcome of every member, holds of the list. -/
theorem mapM {f : α → Except ε β} {l : List α} (h : ∀ a ∈ l, Outcome post' bad (f a)) :
    Outcome (fun r => ∀ b ∈ r, post' b) bad (l.mapM f) := by
  induction l with
  | nil => exact fun b hb => absurd hb (by simp)
  | cons a l ih =>
    rw [List.mapM_cons]
    refine (h a List.mem_cons_self).bind fun b hb => ?_
    refine (ih fun c hc => h c (List.mem_cons_of_mem a hc)).bind fun bs hbs => ?_
    exact List.forall_mem_cons.2 ⟨hb, hbs⟩

end Outcome

/-! ## §4. Two computations side by side. -/

section Parallel

variable {α' β' ε' : Type} {R : α → α' → Prop} {S : β → β' → Prop} {E : ε → ε' → Prop}

/-- **Side by side**: both succeed and the results are related, or both fail and
the faults are. -/
def Parallel (R : α → α' → Prop) (E : ε → ε' → Prop) : Except ε α → Except ε' α' → Prop
  | .ok a, .ok a' => R a a'
  | .error e, .error e' => E e e'
  | _, _ => False

namespace Parallel

theorem cases {x : Except ε α} {x' : Except ε' α'} (h : Parallel R E x x') :
    (∃ e e', x = .error e ∧ x' = .error e' ∧ E e e') ∨ ∃ a a', x = .ok a ∧ x' = .ok a' ∧ R a a' := by
  cases x <;> cases x'
  · exact .inl ⟨_, _, rfl, rfl, h⟩
  · exact h.elim
  · exact h.elim
  · exact .inr ⟨_, _, rfl, rfl, h⟩

theorem mono {R' : α → α' → Prop} {E' : ε → ε' → Prop} {x : Except ε α} {x' : Except ε' α'}
    (h : Parallel R E x x') (hR : ∀ a a', R a a' → R' a a') (hE : ∀ e e', E e e' → E' e e') :
    Parallel R' E' x x' := by
  cases x <;> cases x'
  · exact hE _ _ h
  · exact h
  · exact h
  · exact hR _ _ h

theorem bind {x : Except ε α} {x' : Except ε' α'} {g : α → Except ε β} {g' : α' → Except ε' β'}
    (h : Parallel R E x x') (hg : ∀ a a', R a a' → Parallel S E (g a) (g' a')) :
    Parallel S E (x >>= g) (x' >>= g') := by
  cases x <;> cases x'
  · exact h
  · exact h.elim
  · exact h.elim
  · exact hg _ _ h

theorem map {x : Except ε α} {x' : Except ε' α'} {g : α → β} {g' : α' → β'}
    (h : Parallel R E x x') (hg : ∀ a a', R a a' → S (g a) (g' a')) :
    Parallel S E (x.map g) (x'.map g') := by
  cases x <;> cases x'
  · exact h
  · exact h.elim
  · exact h.elim
  · exact hg _ _ h

theorem mapM {g : α → Except ε β} {g' : α' → Except ε' β'} {l : List α} {l' : List α'}
    (hl : List.Forall₂ R l l') (hg : ∀ a a', R a a' → Parallel S E (g a) (g' a')) :
    Parallel (List.Forall₂ S) E (l.mapM g) (l'.mapM g') := by
  induction hl with
  | nil => exact .nil
  | cons ha _ ih =>
    rw [List.mapM_cons, List.mapM_cons]
    refine (hg _ _ ha).bind fun b b' hb => ?_
    refine ih.bind fun bs bs' hbs => ?_
    exact .cons hb hbs

end Parallel

end Parallel

end EightBit
