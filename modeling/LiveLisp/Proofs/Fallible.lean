/-!
# Computations that may fail

Reading, analysis and sessions are computations on a state that may fail.  When such a computation
succeeds, so did its parts, one after the other.
-/

namespace LiveLisp.Fallible

variable {ε σ α β : Type} {x : EStateM ε σ α} {k : α → EStateM ε σ β} {s s₁ s' : σ} {a a' : α}
  {b : β} {e : ε}

theorem bind_of_ok (h : x s = .ok a s₁) : (x >>= k) s = k a s₁ := by
  change EStateM.bind x k s = _
  simp [EStateM.bind, h]

theorem bind_of_error (h : x s = .error e s₁) : (x >>= k) s = .error e s₁ := by
  change EStateM.bind x k s = _
  simp [EStateM.bind, h]

theorem bind_eq_ok :
    (x >>= k) s = .ok b s' ↔ ∃ a s₁, x s = .ok a s₁ ∧ k a s₁ = .ok b s' := by
  cases h : x s with
  | ok a s₁ =>
    rw [bind_of_ok h]
    constructor
    · intro hk
      exact ⟨a, s₁, rfl, hk⟩
    · rintro ⟨a', s₁', heq, hk⟩
      obtain ⟨rfl, rfl⟩ := EStateM.Result.ok.inj heq
      exact hk
  | error e s₁ =>
    rw [bind_of_error h]
    simp

/-- Two computations come to the same if their first parts do, and the rest does for what the first
part returns. -/
theorem bind_congr_of_ok {y : EStateM ε σ α} {l : α → EStateM ε σ β} (hx : x s = y s')
    (hk : ∀ a s₁, x s = .ok a s₁ → k a s₁ = l a s₁) : (x >>= k) s = (y >>= l) s' := by
  cases h : x s with
  | ok a s₁ => rw [bind_of_ok h, bind_of_ok (hx ▸ h), hk a s₁ h]
  | error e s₁ => rw [bind_of_error h, bind_of_error (hx ▸ h)]

theorem pure_eq_ok : (pure a : EStateM ε σ α) s = .ok a' s' ↔ a = a' ∧ s = s' := by
  change (EStateM.Result.ok a s : EStateM.Result ε σ α) = .ok a' s' ↔ _
  simp

theorem throw_ne_ok : (throw e : EStateM ε σ α) s ≠ .ok a s' := by
  intro h
  change (EStateM.Result.error e s : EStateM.Result ε σ α) = _ at h
  simp at h

theorem throw_bind : (throw e : EStateM ε σ α) >>= k = throw e := rfl

/-! ## What is returned -/

/-- Whatever the computation returns is in `P`. -/
def Returns (P : α → Prop) (x : EStateM ε σ α) : Prop := ∀ s a s', x s = .ok a s' → P a

section Returns

variable {P : α → Prop} {Q : β → Prop}

theorem returns_pure (h : P a) : Returns P (pure a : EStateM ε σ α) := by
  intro s a' s' hrun
  obtain ⟨rfl, -⟩ := pure_eq_ok.mp hrun
  exact h

theorem returns_throw (e : ε) : Returns P (throw e : EStateM ε σ α) :=
  fun _ _ _ hrun => absurd hrun throw_ne_ok

theorem Returns.bind (hx : Returns P x) (hk : ∀ a, P a → Returns Q (k a)) :
    Returns Q (x >>= k) := by
  intro s b s' hrun
  obtain ⟨a, s₁, hfirst, hrest⟩ := bind_eq_ok.mp hrun
  exact hk a (hx s a s₁ hfirst) s₁ b s' hrest

/-- The last part alone decides. -/
theorem returns_bind (hk : ∀ a, Returns Q (k a)) : Returns Q (x >>= k) := by
  have hx : Returns (fun _ => True) x := fun _ _ _ _ => trivial
  exact hx.bind fun a _ => hk a

/-- What comes after a computation counts only for what the computation returns. -/
theorem Returns.bind_congr {l : α → EStateM ε σ β} (hx : Returns P x) (hk : ∀ a, P a → k a = l a) :
    x >>= k = x >>= l := by
  funext s
  cases h : x s with
  | ok a s₁ => rw [bind_of_ok h, bind_of_ok h, hk a (hx s a s₁ h)]
  | error e s₁ => rw [bind_of_error h, bind_of_error h]

end Returns

/-- Begun with a state in `I`, the computation returns what is in `P` and leaves a state in `I`. -/
def Gives (I : σ → Prop) (P : α → Prop) (x : EStateM ε σ α) : Prop :=
  ∀ s a s', I s → x s = .ok a s' → P a ∧ I s'

section Gives

variable {I : σ → Prop} {P : α → Prop} {Q : β → Prop}

theorem gives_pure (h : P a) : Gives I P (pure a : EStateM ε σ α) := by
  intro s a' s' hs hrun
  obtain ⟨rfl, rfl⟩ := pure_eq_ok.mp hrun
  exact ⟨h, hs⟩

theorem gives_throw (e : ε) : Gives I P (throw e : EStateM ε σ α) :=
  fun _ _ _ _ hrun => absurd hrun throw_ne_ok

theorem Gives.bind (hx : Gives I P x) (hk : ∀ a, P a → Gives I Q (k a)) : Gives I Q (x >>= k) := by
  intro s b s' hs hrun
  obtain ⟨a, s₁, hfirst, hrest⟩ := bind_eq_ok.mp hrun
  obtain ⟨ha, hs₁⟩ := hx s a s₁ hs hfirst
  exact hk a ha s₁ b s' hs₁ hrest

end Gives

/-! ## What is left behind -/

/-- The state that a computation leaves behind, whether it succeeds or fails. -/
def finalState (x : EStateM ε σ α) (s : σ) : σ :=
  match x s with
  | .ok _ s' | .error _ s' => s'

theorem finalState_of_ok (h : x s = .ok a s') : finalState x s = s' := by
  simp [finalState, h]

theorem finalState_of_error (h : x s = .error e s') : finalState x s = s' := by
  simp [finalState, h]

theorem finalState_congr {y : EStateM ε σ α} (h : x s = y s') :
    finalState x s = finalState y s' := by
  simp only [finalState, h]

theorem finalState_bind_of_ok (h : x s = .ok a s₁) :
    finalState (x >>= k) s = finalState (k a) s₁ := by
  simp only [finalState, bind_of_ok h]

/-- What a computation returns. -/
def outcome (x : EStateM ε σ α) (s : σ) : Except ε α :=
  match x s with
  | .ok a _ => .ok a
  | .error e _ => .error e

/-- However the computation ends, what it leaves behind is related to what it began with. -/
def Relates (R : σ → σ → Prop) (x : EStateM ε σ α) : Prop := ∀ s, R s (finalState x s)

section Relates

variable {R : σ → σ → Prop}

theorem Relates.of_ok (hx : Relates R x) (h : x s = .ok a s') : R s s' := by
  have hs := hx s
  rwa [finalState_of_ok h] at hs

theorem Relates.of_error (hx : Relates R x) (h : x s = .error e s') : R s s' := by
  have hs := hx s
  rwa [finalState_of_error h] at hs

theorem relates_pure [Std.Refl R] (a : α) : Relates R (pure a : EStateM ε σ α) :=
  fun s => Std.Refl.refl s

theorem relates_throw [Std.Refl R] (e : ε) : Relates R (throw e : EStateM ε σ α) :=
  fun s => Std.Refl.refl s

/-- What the first part leaves behind may be known when the rest begins. -/
theorem related_bind [Trans R R R] (hx : R s (finalState x s))
    (hk : ∀ a s₁, x s = .ok a s₁ → R s s₁ → R s₁ (finalState (k a) s₁)) :
    R s (finalState (x >>= k) s) := by
  cases h : x s with
  | ok a s₁ =>
    rw [finalState_of_ok h] at hx
    rw [finalState_bind_of_ok h]
    exact Trans.trans hx (hk a s₁ h hx)
  | error e s₁ =>
    rw [finalState_of_error h] at hx
    rwa [finalState_of_error (bind_of_error h)]

theorem Relates.bind [Trans R R R] (hx : Relates R x) (hk : ∀ a, Relates R (k a)) :
    Relates R (x >>= k) :=
  fun s => related_bind (hx s) fun a s₁ _ _ => hk a s₁

end Relates

end LiveLisp.Fallible
