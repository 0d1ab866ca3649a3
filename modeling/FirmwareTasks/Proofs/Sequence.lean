import Mathlib.Data.List.Forall2
import Mathlib.Tactic.Lemma
/-!
Computations that keep what they did before they fail: how a sequence ends, and how a handled
failure does.
-/

lemma List.forall₂_congr_of_mem {α β : Type} {R S : α → β → Prop} {as : List α} {bs : List β}
    (h : ∀ a ∈ as, ∀ b, R a b ↔ S a b) : Forall₂ R as bs ↔ Forall₂ S as bs := by
  induction as generalizing bs with
  | nil => simp only [forall₂_nil_left_iff]
  | cons a as ih =>
    rw [forall_mem_cons] at h
    simp only [forall₂_cons_left_iff, h.1, ih h.2]

lemma List.exists_forall₂_iff {α β : Type} {R : α → β → Prop} {as : List α} :
    (∃ bs, Forall₂ R as bs) ↔ ∀ a ∈ as, ∃ b, R a b := by
  induction as with
  | nil => simp
  | cons a as ih =>
    rw [forall_mem_cons, ← ih]
    constructor
    · rintro ⟨_, hab | ⟨hab, htail⟩⟩
      exact ⟨⟨_, hab⟩, _, htail⟩
    · rintro ⟨⟨b, hab⟩, bs, htail⟩
      exact ⟨b :: bs, .cons hab htail⟩

lemma List.Forall₂.eq_nil_iff {α β : Type} {R : α → β → Prop} {as : List α} {bs : List β}
    (h : Forall₂ R as bs) : as = [] ↔ bs = [] := by
  cases h <;> simp

namespace Except

variable {ε α β : Type}

instance (priority := low) decidableEqError [DecidableEq ε] (e : ε) :
    (x : Except ε α) → Decidable (x = .error e)
  | .ok _ => isFalse nofun
  | .error e' => decidable_of_iff (e' = e) ⟨congrArg _, Except.error.inj⟩

lemma bind_eq_ok {x : Except ε α} {f : α → Except ε β} {b : β} (h : (x >>= f) = .ok b) :
    ∃ a, x = .ok a ∧ f a = .ok b := by
  cases x with
  | error e => cases h
  | ok a => exact ⟨a, rfl, h⟩

lemma bind_eq_error {x : Except ε α} {f : α → Except ε β} {e : ε} (h : (x >>= f) = .error e) :
    x = .error e ∨ ∃ a, x = .ok a ∧ f a = .error e := by
  cases x with
  | error e' => cases h; exact .inl rfl
  | ok a => exact .inr ⟨a, rfl, h⟩

lemma map_map {γ : Type} (f : α → β) (g : β → γ) (x : Except ε α) :
    (x.map f).map g = x.map fun a => g (f a) := by
  cases x <;> rfl

lemma map_eq_ok_iff {f : α → β} {x : Except ε α} {b : β} :
    x.map f = .ok b ↔ ∃ a, x = .ok a ∧ f a = b := by
  cases x <;> simp [Except.map]

lemma map_eq_error_iff {f : α → β} {x : Except ε α} {e : ε} :
    x.map f = .error e ↔ x = .error e := by
  cases x <;> simp [Except.map]

theorem mapM_eq_ok_iff {f : α → Except ε β} {as : List α} {bs : List β} :
    as.mapM f = .ok bs ↔ List.Forall₂ (fun a b => f a = .ok b) as bs := by
  induction as generalizing bs with
  | nil =>
    rw [List.mapM_nil, List.forall₂_nil_left_iff]
    exact ⟨fun h => (Except.ok.inj h).symm, fun h => h ▸ rfl⟩
  | cons a as ih =>
    rw [List.mapM_cons, List.forall₂_cons_left_iff]
    constructor
    · intro h
      obtain ⟨b, hb, h⟩ := bind_eq_ok h
      obtain ⟨bs', hbs, h⟩ := bind_eq_ok h
      cases h
      exact ⟨b, bs', hb, ih.1 hbs, rfl⟩
    · rintro ⟨b, bs', hb, hbs, rfl⟩
      rw [hb, ih.2 hbs]
      rfl

lemma mapM_eq_ok_iff_eq_map {f : α → Except ε β} {g : β → α} {as : List α} {bs : List β}
    (h : ∀ a b, f a = .ok b ↔ a = g b) : as.mapM f = .ok bs ↔ as = bs.map g := by
  simp only [mapM_eq_ok_iff, h]
  rw [← List.forall₂_map_right_iff (R := Eq), List.forall₂_eq_eq_eq]

theorem mapM_eq_error_iff {f : α → Except ε β} {as : List α} {e : ε} :
    as.mapM f = .error e ↔ ∃ before a rest, as = before ++ a :: rest ∧
      (∀ b ∈ before, ∃ y, f b = .ok y) ∧ f a = .error e := by
  induction as with
  | nil =>
    constructor
    · intro h; cases h
    · rintro ⟨before, a, rest, h, -⟩; simp at h
  | cons a as ih =>
    cases ha : f a with
    | error e' =>
      have hcons : (a :: as).mapM f = .error e' := by rw [List.mapM_cons, ha]; rfl
      rw [hcons]
      constructor
      · intro h
        cases h
        exact ⟨[], a, as, rfl, by simp, ha⟩
      · rintro ⟨before, b, rest, h, hok, hb⟩
        cases before with
        | nil =>
          obtain ⟨rfl, rfl⟩ := List.cons.inj h
          cases ha.symm.trans hb
          rfl
        | cons c before =>
          obtain ⟨rfl, rfl⟩ := List.cons.inj h
          obtain ⟨y, hy⟩ := hok a List.mem_cons_self
          rw [ha] at hy
          cases hy
    | ok b =>
      have hcons : (a :: as).mapM f = .error e ↔ as.mapM f = .error e := by
        rw [List.mapM_cons, ha]
        cases as.mapM f <;> simp [bind, Except.bind, pure, Except.pure]
      rw [hcons, ih]
      constructor
      · rintro ⟨before, c, rest, rfl, hok, hc⟩
        exact ⟨a :: before, c, rest, rfl, by simpa [ha] using hok, hc⟩
      · rintro ⟨before, c, rest, h, hok, hc⟩
        cases before with
        | nil =>
          obtain ⟨rfl, rfl⟩ := List.cons.inj h
          rw [ha] at hc
          cases hc
        | cons d before =>
          obtain ⟨rfl, rfl⟩ := List.cons.inj h
          exact ⟨before, c, rest, rfl, fun x hx => hok x (List.mem_cons_of_mem _ hx), hc⟩

end Except

namespace EStateM

variable {ε σ τ α β : Type}

namespace Result

/-- The state at the end, be it with a value or with an error. -/
def state : Result ε σ α → σ
  | ok _ s => s
  | error _ s => s

def mapState (f : σ → τ) : Result ε σ α → Result ε τ α
  | ok a s => ok a (f s)
  | error e s => error e (f s)

@[simp] lemma state_mapState (f : σ → τ) (r : Result ε σ α) :
    (r.mapState f).state = f r.state := by cases r <;> rfl

lemma mapState_eq_ok_iff {f : σ → τ} {r : Result ε σ α} {a : α} {t : τ} :
    r.mapState f = ok a t ↔ ∃ s, r = ok a s ∧ f s = t := by
  cases r <;> simp [mapState, and_assoc]

lemma mapState_eq_error_iff {f : σ → τ} {r : Result ε σ α} {e : ε} {t : τ} :
    r.mapState f = error e t ↔ ∃ s, r = error e s ∧ f s = t := by
  cases r <;> simp [mapState, and_assoc]

/-- Something ends well exactly under a condition, and then in a state as described. -/
def Settles (cond : Prop) (post : σ → Prop) : Result ε σ α → Prop
  | ok _ s => cond ∧ post s
  | error _ _ => ¬cond

/-- Something ends well in a state as the first says, or else in one as the second says. -/
def Ends (post fail : σ → Prop) : Result ε σ α → Prop
  | ok _ s => post s
  | error _ s => fail s

instance {P E : σ → Prop} [DecidablePred P] [DecidablePred E] :
    (r : Result ε σ α) → Decidable (r.Ends P E)
  | ok _ s => inferInstanceAs (Decidable (P s))
  | error _ s => inferInstanceAs (Decidable (E s))

lemma Ends.imp {P Q E F : σ → Prop} {r : Result ε σ α} (h : r.Ends P E) (hPQ : ∀ s, P s → Q s)
    (hEF : ∀ s, E s → F s) : r.Ends Q F := by
  cases r with
  | ok a s => exact hPQ s h
  | error e s => exact hEF s h

lemma Ends.state {P : σ → Prop} {r : Result ε σ α} (h : r.Ends P P) : P r.state := by
  cases r <;> exact h

instance decidableIsOk : (r : Result ε σ Unit) → Decidable (∃ s, r = .ok () s)
  | .ok _ s => isTrue ⟨s, rfl⟩
  | .error _ _ => isFalse nofun

instance decidableIsError : (r : Result ε σ α) → Decidable (∃ e s, r = .error e s)
  | .ok _ _ => isFalse nofun
  | .error e s => isTrue ⟨e, s, rfl⟩

instance decidableExistsOk {P : σ → Prop} [DecidablePred P] :
    (r : Result ε σ Unit) → Decidable (∃ s, r = .ok () s ∧ P s)
  | .ok _ s => decidable_of_iff (P s) (by simp)
  | .error _ _ => isFalse nofun

instance decidableExistsError {P : ε → σ → Prop} [∀ e, DecidablePred (P e)] :
    (r : Result ε σ α) → Decidable (∃ e s, r = .error e s ∧ P e s)
  | .ok _ _ => isFalse nofun
  | .error e s => decidable_of_iff (P e s) (by simp)

namespace Settles
variable {p q : Prop} {P Q : σ → Prop} {r : Result ε σ α}

lemma congr (h : r.Settles p P) (hpq : p ↔ q) (hPQ : ∀ s, p → P s → Q s) : r.Settles q Q := by
  cases r with
  | ok a s => exact ⟨hpq.1 h.1, hPQ s h.1 h.2⟩
  | error e s => exact fun hq => h (hpq.2 hq)

end Settles
end Result

variable {m n : EStateM ε σ α} {f : α → EStateM ε σ β} {a : α} {b : β} {e : ε} {s t : σ}

lemma bind_congr_of_eq (h : m s = n s) (f : α → EStateM ε σ β) : (m >>= f) s = (n >>= f) s := by
  change EStateM.bind m f s = EStateM.bind n f s
  rw [EStateM.bind, EStateM.bind, h]

lemma modify_apply (g : σ → σ) (s : σ) : (modify g : EStateM ε σ PUnit) s = .ok ⟨⟩ (g s) := rfl

lemma bind_of_ok (h : m s = .ok a t) (f : α → EStateM ε σ β) : (m >>= f) s = f a t := by
  change EStateM.bind m f s = f a t
  rw [EStateM.bind, h]

lemma bind_of_error (h : m s = .error e t) (f : α → EStateM ε σ β) :
    (m >>= f) s = .error e t := by
  change EStateM.bind m f s = .error e t
  rw [EStateM.bind, h]

theorem bind_eq_ok_iff : (m >>= f) s = .ok b t ↔ ∃ a u, m s = .ok a u ∧ f a u = .ok b t := by
  cases h : m s with
  | ok a u => simp [bind_of_ok h, and_assoc]
  | error e u => simp [bind_of_error h]

theorem bind_eq_error_iff :
    (m >>= f) s = .error e t ↔ m s = .error e t ∨ ∃ a u, m s = .ok a u ∧ f a u = .error e t := by
  cases h : m s with
  | ok a u => simp [bind_of_ok h, and_assoc]
  | error e' u => simp [bind_of_error h]

theorem settles_bind {p q : Prop} {P Q : σ → Prop} (h : (m s).Settles p P) (hqp : q → p)
    (hf : ∀ a u, p → P u → (f a u).Settles q Q) : ((m >>= f) s).Settles q Q := by
  cases hm : m s with
  | ok a u =>
    rw [hm] at h
    rw [bind_of_ok hm]
    exact hf a u h.1 h.2
  | error e u =>
    rw [hm] at h
    rw [bind_of_error hm]
    exact fun hq => h (hqp hq)

/-- A sequence ends as what comes after its first part does, or as that part fails. -/
theorem ends_bind {P E Q F : σ → Prop} (h : (m s).Ends P E)
    (hf : ∀ a u, P u → (f a u).Ends Q F) (hEF : ∀ u, E u → F u) : ((m >>= f) s).Ends Q F := by
  cases hm : m s with
  | ok a u =>
    rw [hm] at h
    rw [bind_of_ok hm]
    exact hf a u h
  | error e u =>
    rw [hm] at h
    rw [bind_of_error hm]
    exact hEF u h

lemma rel_bind {R : σ → σ → Prop} [IsTrans σ R] (h : R s (m s).state)
    (hf : ∀ a t, m s = .ok a t → R t (f a t).state) : R s ((m >>= f) s).state := by
  cases hm : m s with
  | ok a t =>
    rw [hm] at h
    rw [bind_of_ok hm]
    exact trans_of R h (hf a t hm)
  | error e t =>
    rw [hm] at h
    rw [bind_of_error hm]
    exact h

lemma rel_of_bind {R : σ → σ → Prop} [Std.Refl R]
    (hf : ∀ a t, m s = .ok a t → R t (f a t).state) : R (m s).state ((m >>= f) s).state := by
  cases hm : m s with
  | ok a t =>
    rw [bind_of_ok hm]
    exact hf a t hm
  | error e t =>
    rw [bind_of_error hm]
    exact refl_of R t

lemma tryCatch_of_ok (h : m s = .ok a t) (handle : ε → EStateM ε σ α) :
    tryCatch m handle s = .ok a t := by
  change EStateM.tryCatch m handle s = .ok a t
  simp [EStateM.tryCatch, h]

lemma tryCatch_of_error (h : m s = .error e t) (handle : ε → EStateM ε σ α) :
    tryCatch m handle s = handle e t := by
  change EStateM.tryCatch m handle s = handle e t
  simp [EStateM.tryCatch, h, EStateM.Backtrackable.restore, EStateM.dummyRestore]

end EStateM
