import Osdev.Lib.Except

/-!
# Programs with a state that may fail

`StateT σ (Except ε)` with two judgments. `Keeps R m` says that a run of `m` that ends leads from a
state to one in relation `R`; it is a class, so that for a program that is put together from others
it is found by search. `Triple P m Q E` is a triple with a condition `E` on the errors.
-/

namespace Osdev.Lib

variable {σ ε α β : Type}
variable {m m' : StateT σ (Except ε) α} {s s' : σ} {a : α} {e : ε} {c : Prop}
variable {R' R : σ → σ → Prop} {Q : α → σ → Prop}

/-! ## Runs -/

theorem run_pure (a : α) (s : σ) : (pure a : StateT σ (Except ε) α) s = .ok (a, s) := rfl

theorem run_throw (e : ε) (s : σ) : (throw e : StateT σ (Except ε) α) s = .error e := rfl

theorem run_bind_eq_ok {f : α → StateT σ (Except ε) β} {b : β} :
    (m >>= f) s = .ok (b, s') ↔ ∃ a s1, m s = .ok (a, s1) ∧ f a s1 = .ok (b, s') := by
  constructor
  · intro h
    obtain ⟨⟨a, s1⟩, h1, h2⟩ := bind_eq_ok.mp h
    exact ⟨a, s1, h1, h2⟩
  · rintro ⟨a, s1, h1, h2⟩
    exact bind_eq_ok.mpr ⟨(a, s1), h1, h2⟩

theorem run_bind_ok {f : α → StateT σ (Except ε) β} {b : β} (h : (m >>= f) s = .ok (b, s')) :
    ∃ a s1, m s = .ok (a, s1) ∧ f a s1 = .ok (b, s') :=
  run_bind_eq_ok.mp h

theorem run_guard_eq_ok [Decidable c] :
    (if c then throw e else m) s = .ok (a, s') ↔ ¬ c ∧ m s = .ok (a, s') := by
  by_cases h : c
  · simp [h, run_throw]
  · simp [h]

/-- Running the first part of a program. -/
theorem run_bind {s1 : σ} (h : m s = .ok (a, s1)) (f : α → StateT σ (Except ε) β) :
    (m >>= f) s = f a s1 := by
  change (m s >>= fun p => f p.1 p.2) = f a s1
  rw [h]
  rfl

theorem run_bind_error (h : m s = .error e) (f : α → StateT σ (Except ε) β) :
    (m >>= f) s = .error e := by
  change (m s >>= fun p => f p.1 p.2) = .error e
  rw [h]
  rfl

/-! ## What a program keeps -/

/-- From a state in `P`, the program leads to a state in relation `R`. -/
def KeepsFrom (P : σ → Prop) (R : σ → σ → Prop) (m : StateT σ (Except ε) α) : Prop :=
  ∀ s a s', P s → m s = .ok (a, s') → R s s'

/-- From every state, the program leads to a state in relation `R`. -/
class Keeps (R : σ → σ → Prop) (m : StateT σ (Except ε) α) : Prop where
  keeps : ∀ s a s', m s = .ok (a, s') → R s s'

section Keeps

variable {R : σ → σ → Prop} {P P' : σ → Prop} {m : StateT σ (Except ε) α}
  {f : α → StateT σ (Except ε) β}

theorem Keeps.of_from (h : KeepsFrom (fun _ => True) R m) : Keeps R m where
  keeps s a s' hm := h s a s' trivial hm

theorem Keeps.weaken [h : Keeps R m] : KeepsFrom P R m :=
  fun s a s' _ hm => h.keeps s a s' hm

theorem KeepsFrom.weaken (h : KeepsFrom P R m) (hP : ∀ s, P' s → P s) : KeepsFrom P' R m :=
  fun s a s' hs hm => h s a s' (hP s hs) hm

theorem KeepsFrom.mono (h : KeepsFrom P R m) (hR : ∀ s s', R s s' → R' s s') :
    KeepsFrom P R' m :=
  fun s a s' hs hm => hR s s' (h s a s' hs hm)

instance Keeps.pure [Std.Refl R] (a : α) : Keeps R (pure a : StateT σ (Except ε) α) where
  keeps s b s' h := by
    cases h
    exact Std.Refl.refl s

instance Keeps.throw (e : ε) : Keeps R (throw e : StateT σ (Except ε) α) where
  keeps s b s' h := by cases h

instance Keeps.get [Std.Refl R] : Keeps R (get : StateT σ (Except ε) σ) where
  keeps s b s' h := by
    cases h
    exact Std.Refl.refl s

instance Keeps.bind [Trans R R R] [hm : Keeps R m] [hf : ∀ a, Keeps R (f a)] :
    Keeps R (m >>= f) where
  keeps s b s' h := by
    obtain ⟨a, s1, h1, h2⟩ := run_bind_ok h
    exact Trans.trans (hm.keeps _ _ _ h1) ((hf a).keeps _ _ _ h2)

/-- The same rule for the parts that the search does not find. -/
theorem Keeps.seq [Trans R R R] (hm : Keeps R m) (hf : ∀ a, Keeps R (f a)) : Keeps R (m >>= f) :=
  .bind

/-- The same, where the search finds the first part. -/
theorem Keeps.step [Trans R R R] [Keeps R m] (hf : ∀ a, Keeps R (f a)) : Keeps R (m >>= f) :=
  .bind

theorem Keeps.mono (hR : ∀ s s', R s s' → R' s s') (hm : Keeps R m) :
    Keeps R' m where
  keeps s a s' h := hR s s' (hm.keeps s a s' h)

instance Keeps.ite {c : Prop} [Decidable c] {m' : StateT σ (Except ε) α} [hm : Keeps R m]
    [hm' : Keeps R m'] : Keeps R (if c then m else m') := by
  split
  · exact hm
  · exact hm'

/-- The same rule for the parts that the search does not find. -/
theorem Keeps.branch [Decidable c] (hm : Keeps R m)
    (hm' : Keeps R m') : Keeps R (if c then m else m') :=
  .ite

theorem Keeps.orElse [Decidable c] [Keeps R m] (hm' : Keeps R m') : Keeps R (if c then m else m') :=
  .ite

/-- A part that only looks at the state tells the rest what it saw. -/
theorem KeepsFrom.look (hm : ∀ s a s', m s = .ok (a, s') → s' = s ∧ Q a s)
    (hf : ∀ a, KeepsFrom (fun s => P s ∧ Q a s) R (f a)) : KeepsFrom P R (m >>= f) := by
  intro s b s' hs h
  obtain ⟨a, s1, h1, h2⟩ := run_bind_ok h
  obtain ⟨rfl, hq⟩ := hm _ _ _ h1
  exact hf a _ _ _ ⟨hs, hq⟩ h2

/-- A part that leaves the state alone. -/
theorem KeepsFrom.skip [hm : Keeps Eq m] (hf : ∀ a, KeepsFrom P R (f a)) :
    KeepsFrom P R (m >>= f) := by
  intro s b s' hs h
  obtain ⟨a, s1, h1, h2⟩ := run_bind_ok h
  obtain rfl := hm.keeps _ _ _ h1
  exact hf a _ _ _ hs h2

/-- The first part leads from `P` to `Q`. -/
theorem KeepsFrom.bind [Trans R R R] (hm : KeepsFrom P R m)
    (hQ : ∀ s a s', P s → m s = .ok (a, s') → Q a s') (hf : ∀ a, KeepsFrom (Q a) R (f a)) :
    KeepsFrom P R (m >>= f) := by
  intro s b s' hs h
  obtain ⟨a, s1, h1, h2⟩ := run_bind_ok h
  exact Trans.trans (hm _ _ _ hs h1) (hf a _ _ _ (hQ _ _ _ hs h1) h2)

/-- After the first step nothing is known of the state. -/
theorem KeepsFrom.seq [Trans R R R] (hm : KeepsFrom P R m) [hf : ∀ a, Keeps R (f a)] :
    KeepsFrom P R (m >>= f) := by
  intro s b s' hs h
  obtain ⟨a, s1, h1, h2⟩ := run_bind_ok h
  exact Trans.trans (hm _ _ _ hs h1) ((hf a).keeps _ _ _ h2)

theorem KeepsFrom.ite [Decidable c] (hm : c → KeepsFrom P R m) (hm' : ¬ c → KeepsFrom P R m') :
    KeepsFrom P R (if c then m else m') := by
  split
  next h => exact hm h
  next h => exact hm' h

end Keeps

/-! ## Triples -/

/-- From a state in `P`, the program ends with a result and a state in `Q`, or with an error in
`E`. -/
def Triple (P : σ → Prop) (m : StateT σ (Except ε) α) (Q : α → σ → Prop) (E : ε → Prop) : Prop :=
  ∀ s, P s → (∀ a s', m s = .ok (a, s') → Q a s') ∧ ∀ e, m s = .error e → E e

/-- The same, if nothing is said about errors. -/
abbrev Ends (P : σ → Prop) (m : StateT σ (Except ε) α) (Q : α → σ → Prop) : Prop :=
  Triple P m Q fun _ => True

namespace Triple

variable {P P' : σ → Prop} {Q Q' : α → σ → Prop} {E : ε → Prop} {m : StateT σ (Except ε) α}
  {f : α → StateT σ (Except ε) β} {S : β → σ → Prop}

theorem pure (h : ∀ s, P s → Q a s) : Triple P (pure a) Q E := by
  refine fun s hs => ⟨fun b s' hb => ?_, fun e he => by cases he⟩
  cases hb
  exact h s hs

theorem throw (h : E e) : Triple P (throw e : StateT σ (Except ε) α) Q E :=
  fun _ _ => ⟨fun _ _ hb => (by cases hb), fun _ he => (by cases he; exact h)⟩

theorem bind (hm : Triple P m Q E) (hf : ∀ a, Triple (Q a) (f a) S E) :
    Triple P (m >>= f) S E := by
  intro s hs
  obtain ⟨hok, herr⟩ := hm s hs
  cases hrun : m s with
  | error e =>
    rw [run_bind_error hrun]
    exact ⟨fun _ _ h => (by cases h), fun e' h => (by cases h; exact herr _ hrun)⟩
  | ok p =>
    obtain ⟨a, s1⟩ := p
    rw [run_bind hrun]
    exact hf a s1 (hok a s1 hrun)

theorem ite [Decidable c] (hm : c → Triple P m Q E) (hm' : ¬ c → Triple P m' Q E) :
    Triple P (if c then m else m') Q E := by
  split
  next h => exact hm h
  next h => exact hm' h

theorem mono (h : Triple P m Q E) (hP : ∀ s, P' s → P s) (hQ : ∀ a s, Q a s → Q' a s) :
    Triple P' m Q' E := by
  intro s hs
  obtain ⟨hok, herr⟩ := h s (hP s hs)
  exact ⟨fun a s' hm => hQ a s' (hok a s' hm), herr⟩

theorem pre (h : Triple P m Q E) (hP : ∀ s, P' s → P s) : Triple P' m Q E := fun s hs =>
    h s (hP s hs)

theorem post (h : Triple P m Q E) (hQ : ∀ a s, Q a s → Q' a s) : Triple P m Q' E :=
  h.mono (fun _ hs => hs) hQ

/-- A fact about the state before that does not depend on the state goes in front. -/
theorem intro (h : c → Triple P m Q E) : Triple (fun s => c ∧ P s) m Q E :=
  fun s hs => h hs.1 s hs.2

/-- What follows from the relation to the state before. -/
theorem of_from (hm : KeepsFrom P R m) (hQ : ∀ s s', P s → R s s' → P' s') :
    Ends P m fun _ => P' :=
  fun s hs => ⟨fun a s' h => hQ s s' hs (hm s a s' hs h), fun _ _ => trivial⟩

/-- A condition that the relation keeps. -/
theorem stable [Keeps R m] (hP : ∀ s s', P s → R s s' → P s') :
    Ends P m fun _ => P :=
  of_from Keeps.weaken hP

/-- What is in relation to a first state stays in relation to it. -/
theorem of_keeps [Trans R R R] [hm : Keeps R m] (s0 : σ) :
    Ends (R s0) m fun _ => R s0 :=
  fun _ hs => ⟨fun _ _ h => Trans.trans hs (hm.keeps _ _ _ h), fun _ _ => trivial⟩

/-- A first part that keeps the relation. -/
theorem after [Trans R R R] [Keeps R m] {s0 : σ}
    (hf : ∀ a, Ends (R s0) (f a) S) : Ends (R s0) (m >>= f) S :=
  (of_keeps s0).bind hf

end Triple

/-! ## Results -/

/-- Every result of the program is in `Q`. -/
def Returns (m : StateT σ (Except ε) α) (Q : α → Prop) : Prop :=
  ∀ s a s', m s = .ok (a, s') → Q a

namespace Returns

variable {m : StateT σ (Except ε) α} {f : α → StateT σ (Except ε) β} {Q : α → Prop} {S : β → Prop}

theorem pure (h : Q a) : Returns (pure a : StateT σ (Except ε) α) Q := by
  intro s b s' hb
  cases hb
  exact h

theorem bind (hm : Returns m Q) (hf : ∀ a, Q a → Returns (f a) S) : Returns (m >>= f) S := by
  intro s b s' h
  obtain ⟨a, s1, h1, h2⟩ := run_bind_ok h
  exact hf a (hm _ _ _ h1) _ _ _ h2

/-- The result does not depend on the one of the first part. -/
theorem seq (hf : ∀ a, Returns (f a) S) : Returns (m >>= f) S := by
  intro s b s' h
  obtain ⟨a, s1, -, h2⟩ := run_bind_ok h
  exact hf a _ _ _ h2

theorem ite [Decidable c] (hm : c → Returns m Q) (hm' : ¬ c → Returns m' Q) :
    Returns (if c then m else m') Q := by
  split
  next h => exact hm h
  next h => exact hm' h

end Returns

end Osdev.Lib
