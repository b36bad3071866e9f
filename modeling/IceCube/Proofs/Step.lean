import Mathlib.Data.List.Forall2
import Mathlib.Order.Defs.Unbundled

/-!
# How steps end

A step of a process ends in a value or an error and leaves a state behind in both cases.  `outcome`
is that pair.  What a step does to the state whichever way it ends is said by a relation between
the two states, and a relation that is reflexive and transitive passes from the parts of a step to
the whole.  A step of two parts fails in one of them.  One step follows another when it ends well
from every state that is related to one from which the other does, and this too passes from the
parts to the whole.  So it does that two steps end alike, in the same error if not well.
-/

namespace IceCube.Step

variable {σ ε α β : Type}

theorem toOption_eq_some_iff {x : Except ε α} {a : α} : x.toOption = some a ↔ x = .ok a := by
  cases x <;> simp [Except.toOption]

theorem except_bind_eq_ok {x : Except ε α} {f : α → Except ε β} {b : β} :
    x >>= f = .ok b ↔ ∃ a, x = .ok a ∧ f a = .ok b := by
  cases x <;> simp [bind, Except.bind]

/-- How a step ends, and the state that it leaves behind. -/
def outcome (m : ExceptT ε (StateM σ) α) (s : σ) : Except ε α × σ := m.run s

@[simp] theorem outcome_pure (a : α) (s : σ) :
    outcome (pure a : ExceptT ε (StateM σ) α) s = (.ok a, s) := rfl

@[simp] theorem outcome_throw (e : ε) (s : σ) :
    outcome (throw e : ExceptT ε (StateM σ) α) s = (.error e, s) := rfl

@[simp] theorem outcome_get (s : σ) :
    outcome (get : ExceptT ε (StateM σ) σ) s = (.ok s, s) := rfl

@[simp] theorem outcome_set (s t : σ) :
    outcome (set t : ExceptT ε (StateM σ) PUnit) s = (.ok ⟨⟩, t) := rfl

@[simp] theorem outcome_modify (f : σ → σ) (s : σ) :
    outcome (modify f : ExceptT ε (StateM σ) PUnit) s = (.ok ⟨⟩, f s) := rfl

theorem outcome_bind (m : ExceptT ε (StateM σ) α) (f : α → ExceptT ε (StateM σ) β) (s : σ) :
    outcome (m >>= f) s = match outcome m s with
      | (.ok a, t) => outcome (f a) t
      | (.error e, t) => (.error e, t) := by
  have h : outcome (m >>= f) s = match outcome m s with
      | (r, t) => ExceptT.bindCont f r t := rfl
  rw [h]
  rcases outcome m s with ⟨_ | _, t⟩ <;> rfl

@[simp] theorem outcome_map (g : α → β) (m : ExceptT ε (StateM σ) α) (s : σ) :
    outcome (g <$> m) s = match outcome m s with
      | (.ok a, t) => (.ok (g a), t)
      | (.error e, t) => (.error e, t) := by
  rw [map_eq_pure_bind, outcome_bind]
  rcases outcome m s with ⟨_ | _, t⟩ <;> rfl

theorem outcome_tryCatch (m : ExceptT ε (StateM σ) α) (f : ε → ExceptT ε (StateM σ) α) (s : σ) :
    outcome (tryCatch m f) s = match outcome m s with
      | (.ok a, t) => (.ok a, t)
      | (.error e, t) => outcome (f e) t := by
  have h : outcome (tryCatch m f) s = match outcome m s with
      | (r, t) => (match r with
        | .ok a => pure (.ok a)
        | .error e => (f e).run : StateM σ (Except ε α)) t := rfl
  rw [h]
  rcases outcome m s with ⟨_ | _, t⟩ <;> rfl

theorem outcome_tryCatch_of_ok {m : ExceptT ε (StateM σ) α} {s t : σ} {a : α}
    (h : outcome m s = (.ok a, t)) (f : ε → ExceptT ε (StateM σ) α) :
    outcome (tryCatch m f) s = (.ok a, t) := by
  rw [outcome_tryCatch, h]

/-- A step ends well as before if no error is made up for. -/
theorem outcome_tryCatch_eq_ok {m : ExceptT ε (StateM σ) α} {f : ε → ExceptT ε (StateM σ) α}
    (hf : ∀ e s, ¬ ∃ a t, outcome (f e) s = (.ok a, t)) {s t : σ} {a : α} :
    outcome (tryCatch m f) s = (.ok a, t) ↔ outcome m s = (.ok a, t) := by
  rw [outcome_tryCatch]
  rcases outcome m s with ⟨e | b, u⟩
  · exact ⟨fun h ↦ absurd ⟨_, _, h⟩ (hf e u), nofun⟩
  · exact Iff.rfl

/-- A step goes on after one that has ended well. -/
theorem outcome_bind_of_ok {m : ExceptT ε (StateM σ) α} {s t : σ} {a : α}
    (h : outcome m s = (.ok a, t)) (f : α → ExceptT ε (StateM σ) β) :
    outcome (m >>= f) s = outcome (f a) t := by
  rw [outcome_bind, h]

theorem outcome_bind_of_error {m : ExceptT ε (StateM σ) α} {s t : σ} {e : ε}
    (h : outcome m s = (.error e, t)) (f : α → ExceptT ε (StateM σ) β) :
    outcome (m >>= f) s = (.error e, t) := by
  rw [outcome_bind, h]

/-- What ended well in two parts ended well in the first, and then in the second. -/
theorem outcome_bind_eq_ok {m : ExceptT ε (StateM σ) α} {f : α → ExceptT ε (StateM σ) β}
    {s u : σ} {b : β} :
    outcome (m >>= f) s = (.ok b, u) ↔
      ∃ a t, outcome m s = (.ok a, t) ∧ outcome (f a) t = (.ok b, u) := by
  rw [outcome_bind]
  rcases outcome m s with ⟨e | a, t⟩
  · simp
  · constructor
    · exact fun h ↦ ⟨a, t, rfl, h⟩
    · rintro ⟨a', t', h, h'⟩
      cases h
      exact h'

theorem exists_outcome_eq_ok {m : ExceptT ε (StateM σ) α} {s : σ} {P : σ → Prop}
    (hm : (outcome m s).1.toOption.isSome = true) (hP : P (outcome m s).2) :
    ∃ a t, outcome m s = (.ok a, t) ∧ P t := by
  rcases h : outcome m s with ⟨e | a, t⟩ <;> rw [h] at hm hP
  · cases hm
  · exact ⟨a, t, rfl, hP⟩

/-- A step that shows something of a value has ended with such a value. -/
theorem exists_outcome_of_map {m : ExceptT ε (StateM σ) α} {s : σ} {f : α → β} {b : β}
    (h : (outcome m s).1.toOption.map f = some b) : ∃ a t, outcome m s = (.ok a, t) ∧ f a = b := by
  obtain ⟨a, ha, hb⟩ := Option.map_eq_some_iff.mp h
  exact ⟨a, _, Prod.ext (toOption_eq_some_iff.mp ha) rfl, hb⟩

@[simp] theorem outcome_get_bind (f : σ → ExceptT ε (StateM σ) β) (s : σ) :
    outcome (get >>= f) s = outcome (f s) s := outcome_bind_of_ok (outcome_get s) f

@[simp] theorem outcome_pure_bind (a : α) (f : α → ExceptT ε (StateM σ) β) (s : σ) :
    outcome (pure a >>= f) s = outcome (f a) s := outcome_bind_of_ok (outcome_pure a s) f

@[simp] theorem outcome_set_bind (t : σ) (f : PUnit → ExceptT ε (StateM σ) β) (s : σ) :
    outcome (set t >>= f) s = outcome (f ⟨⟩) t := outcome_bind_of_ok (outcome_set s t) f

@[simp] theorem outcome_modify_bind (g : σ → σ) (f : PUnit → ExceptT ε (StateM σ) β) (s : σ) :
    outcome (modify g >>= f) s = outcome (f ⟨⟩) (g s) := outcome_bind_of_ok (outcome_modify g s) f

/-! ## What a step does to the state -/

/-- Whichever way a step ends, the states before and after it are related. -/
def Moves (R : σ → σ → Prop) (m : ExceptT ε (StateM σ) α) : Prop := ∀ s, R s (outcome m s).2

/-- The states before and after a step that ended in one way or the other. -/
theorem Moves.of_outcome {R : σ → σ → Prop} {m : ExceptT ε (StateM σ) α} (h : Moves R m)
    {s t : σ} {r : Except ε α} (hm : outcome m s = (r, t)) : R s t := by
  have hs := h s
  rwa [hm] at hs

section Moves

variable {R S : σ → σ → Prop}

theorem Moves.mono {m : ExceptT ε (StateM σ) α} (h : Moves R m) (hRS : ∀ s t, R s t → S s t) :
    Moves S m := fun s ↦ hRS s _ (h s)

variable [IsPreorder σ R]

theorem moves_of_state_eq {m : ExceptT ε (StateM σ) α} (h : ∀ s, (outcome m s).2 = s) :
    Moves R m := fun s ↦ by rw [h s]; exact refl s

theorem moves_pure (a : α) : Moves R (pure a : ExceptT ε (StateM σ) α) :=
  moves_of_state_eq fun _ ↦ rfl

theorem moves_throw (e : ε) : Moves R (throw e : ExceptT ε (StateM σ) α) :=
  moves_of_state_eq fun _ ↦ rfl

theorem moves_get : Moves R (get : ExceptT ε (StateM σ) σ) := moves_of_state_eq fun _ ↦ rfl

omit [IsPreorder σ R] in
theorem moves_modify {f : σ → σ} (h : ∀ s, R s (f s)) :
    Moves R (modify f : ExceptT ε (StateM σ) PUnit) := h

theorem moves_bind {m : ExceptT ε (StateM σ) α} {f : α → ExceptT ε (StateM σ) β}
    (hm : Moves R m) (hf : ∀ a, Moves R (f a)) : Moves R (m >>= f) := by
  intro s
  have hs := hm s
  rw [outcome_bind]
  rcases h : outcome m s with ⟨e | a, t⟩ <;> rw [h] at hs
  · exact hs
  · exact IsTrans.trans _ _ _ hs (hf a t)

theorem moves_tryCatch {m : ExceptT ε (StateM σ) α} {f : ε → ExceptT ε (StateM σ) α}
    (hm : Moves R m) (hf : ∀ e, Moves R (f e)) : Moves R (tryCatch m f) := by
  intro s
  have hs := hm s
  rw [outcome_tryCatch]
  rcases h : outcome m s with ⟨e | a, t⟩ <;> rw [h] at hs
  · exact IsTrans.trans _ _ _ hs (hf e t)
  · exact hs

omit [IsPreorder σ R] in
/-- A step that looks at the state and goes on by what it has seen. -/
theorem moves_get_bind {f : σ → ExceptT ε (StateM σ) β} (h : ∀ s, R s (outcome (f s) s).2) :
    Moves R (get >>= f) := fun s ↦ by rw [outcome_get_bind]; exact h s

theorem moves_mapM {f : α → ExceptT ε (StateM σ) β} {as : List α} (hf : ∀ a ∈ as, Moves R (f a)) :
    Moves R (as.mapM f) := by
  induction as with
  | nil => exact moves_pure []
  | cons a as ih =>
    obtain ⟨ha, has⟩ := List.forall_mem_cons.mp hf
    rw [List.mapM_cons]
    exact moves_bind ha fun b ↦ moves_bind (ih has) fun bs ↦ moves_pure (b :: bs)

theorem moves_forM {f : α → ExceptT ε (StateM σ) PUnit} (hf : ∀ a, Moves R (f a)) (as : List α) :
    Moves R (as.forM f) := by
  induction as with
  | nil => exact moves_pure PUnit.unit
  | cons a as ih => exact moves_bind (hf a) fun _ ↦ ih

theorem moves_foldlM {f : β → α → ExceptT ε (StateM σ) β} {as : List α}
    (hf : ∀ b, ∀ a ∈ as, Moves R (f b a)) (b : β) : Moves R (as.foldlM f b) := by
  induction as generalizing b with
  | nil => exact moves_pure b
  | cons a as ih =>
    rw [List.foldlM_cons]
    exact moves_bind (hf b a (List.mem_cons_self ..)) fun b ↦
      ih (fun b a ha ↦ hf b a (List.mem_cons_of_mem _ ha)) b

end Moves

/-! ## What stays the same and what is kept -/

/-- The part of the state that a function shows is the same before and after. -/
def Same (f : σ → β) (s t : σ) : Prop := f t = f s

instance (f : σ → β) : IsPreorder σ (Same f) where
  refl _ := rfl
  trans _ _ _ hst htu := Eq.trans htu hst

/-- A property that holds before holds after. -/
def Keeps (P : σ → Prop) (s t : σ) : Prop := P s → P t

instance (P : σ → Prop) : IsPreorder σ (Keeps P) where
  refl _ := id
  trans _ _ _ hst htu := htu ∘ hst

/-- A step keeps what is said of a part of the state that it leaves the same. -/
theorem Moves.keeps {f : σ → β} {m : ExceptT ε (StateM σ) α} (h : Moves (Same f) m)
    (P : β → Prop) : Moves (Keeps fun s ↦ P (f s)) m :=
  h.mono fun s t hst hs ↦ by rw [Same] at hst; rwa [hst]

/-! ## Steps that fail -/

/-- A step ends with an error. -/
def Fails (m : ExceptT ε (StateM σ) α) (s : σ) (e : ε) : Prop := ∃ t, outcome m s = (.error e, t)

section Fails

variable {m : ExceptT ε (StateM σ) α} {f : α → ExceptT ε (StateM σ) β} {s t : σ} {e : ε}

@[simp] theorem not_fails_pure (a : α) : ¬ Fails (pure a : ExceptT ε (StateM σ) α) s e := by
  rintro ⟨t, ⟨⟩⟩

@[simp] theorem fails_throw {e' : ε} :
    Fails (throw e' : ExceptT ε (StateM σ) α) s e ↔ e = e' := by
  constructor
  · rintro ⟨t, h⟩
    cases h
    rfl
  · rintro rfl
    exact ⟨s, rfl⟩

/-- A step that ends well does not fail. -/
theorem not_fails_of_ok {a : α} (h : outcome m s = (.ok a, t)) : ¬ Fails m s e := by
  rintro ⟨u, hu⟩
  rw [h] at hu
  cases hu

/-- A step ends with one error at most. -/
theorem Fails.unique {e' : ε} (h : Fails m s e) (h' : Fails m s e') : e' = e := by
  obtain ⟨t, h⟩ := h
  obtain ⟨u, h'⟩ := h'
  rw [h] at h'
  cases h'
  rfl

theorem fails_bind_of_ok {a : α} (h : outcome m s = (.ok a, t)) :
    Fails (m >>= f) s e ↔ Fails (f a) t e := by
  rw [Fails, outcome_bind_of_ok h, Fails]

/-- What fails in two parts fails in the first, or in the second after the first has ended well. -/
theorem fails_bind_iff :
    Fails (m >>= f) s e ↔ Fails m s e ∨ ∃ a t, outcome m s = (.ok a, t) ∧ Fails (f a) t e := by
  rcases h : outcome m s with ⟨e' | a, t⟩
  · have hfails : Fails m s e' := ⟨t, h⟩
    have hbind : Fails (m >>= f) s e' := ⟨t, outcome_bind_of_error h f⟩
    constructor
    · intro he
      exact .inl (hbind.unique he ▸ hfails)
    · rintro (he | ⟨a, u, ⟨⟩, -⟩)
      exact hfails.unique he ▸ hbind
  · rw [fails_bind_of_ok h]
    constructor
    · intro he
      exact .inr ⟨a, t, rfl, he⟩
    · rintro (he | ⟨a', t', heq, he⟩)
      · exact absurd he (not_fails_of_ok h)
      · cases heq
        exact he

/-- Giving back a value does not fail. -/
theorem fails_bind_pure_iff {g : α → β} : Fails (m >>= fun a ↦ pure (g a)) s e ↔ Fails m s e := by
  rw [fails_bind_iff]
  constructor
  · rintro (h | ⟨a, t, -, h⟩)
    · exact h
    · exact absurd h (not_fails_pure _)
  · intro h
    exact .inl h

theorem fails_get_bind {f : σ → ExceptT ε (StateM σ) β} :
    Fails (get >>= f) s e ↔ Fails (f s) s e := fails_bind_of_ok (outcome_get s)

/-- One of many steps fails, and those before it have ended well. -/
theorem fails_mapM_iff {f : α → ExceptT ε (StateM σ) β} {as : List α} {s : σ} :
    Fails (as.mapM f) s e ↔ ∃ before a after bs t, as = before ++ a :: after ∧
      outcome (before.mapM f) s = (.ok bs, t) ∧ Fails (f a) t e := by
  induction as generalizing s with
  | nil =>
    rw [List.mapM_nil]
    constructor
    · intro h
      exact absurd h (not_fails_pure _)
    · rintro ⟨before, a, after, bs, t, h, -⟩
      simp at h
  | cons a as ih =>
    rw [List.mapM_cons, fails_bind_iff]
    constructor
    · rintro (h | ⟨b, t, hb, h⟩)
      · exact ⟨[], a, as, [], s, rfl, rfl, h⟩
      · obtain ⟨before, a', after, bs, u, rfl, hbs, h⟩ := ih.mp (fails_bind_pure_iff.mp h)
        refine ⟨a :: before, a', after, b :: bs, u, rfl, ?_, h⟩
        rw [List.mapM_cons, outcome_bind_of_ok hb, outcome_bind_of_ok hbs]
        rfl
    · rintro ⟨before, a', after, bs, u, has, hbs, h⟩
      cases before with
      | nil =>
        cases has
        cases hbs
        exact .inl h
      | cons a'' before =>
        cases has
        rw [List.mapM_cons] at hbs
        obtain ⟨b, t, hb, hbs⟩ := outcome_bind_eq_ok.mp hbs
        obtain ⟨bs', t', hbs', hbs⟩ := outcome_bind_eq_ok.mp hbs
        cases hbs
        exact .inr ⟨b, t, hb, fails_bind_iff.mpr (.inl (ih.mpr ⟨_, _, _, _, _, rfl, hbs', h⟩))⟩

end Fails

/-! ## Steps from related states -/

/-- Where one step ends well, another one ends well from every related state, with related results
and in a related state. -/
def Follows (T : σ → σ → Prop) (R : α → β → Prop) (m : ExceptT ε (StateM σ) α)
    (m' : ExceptT ε (StateM σ) β) : Prop :=
  ∀ ⦃s t⦄, T s t → ∀ ⦃a s'⦄, outcome m s = (.ok a, s') →
    ∃ b t', outcome m' t = (.ok b, t') ∧ R a b ∧ T s' t'

/-- Lists that are related one by one are related at every place. -/
theorem exists_getElem?_of_forall₂ {R : α → β → Prop} {as : List α} {bs : List β}
    (h : List.Forall₂ R as bs) {k : Nat} {a : α} (ha : as[k]? = some a) :
    ∃ b, bs[k]? = some b ∧ R a b := by
  induction h generalizing k with
  | nil => cases ha
  | cons hab _ ih =>
    cases k with
    | zero =>
      cases ha
      exact ⟨_, rfl, hab⟩
    | succ k => exact ih ha

section Follows

variable {α' β' : Type} {T : σ → σ → Prop} {R : α → α' → Prop} {S : β → β' → Prop}

theorem follows_pure {a : α} {a' : α'} (h : R a a') :
    Follows T R (pure a : ExceptT ε (StateM σ) α) (pure a') := by
  rintro s t hst b s' hs
  cases hs
  exact ⟨a', t, rfl, h, hst⟩

/-- A step that fails is followed by every step. -/
theorem follows_throw (e : ε) (m' : ExceptT ε (StateM σ) α') :
    Follows T R (throw e : ExceptT ε (StateM σ) α) m' := by
  rintro s t - a s' hs
  cases hs

theorem follows_bind {m : ExceptT ε (StateM σ) α} {m' : ExceptT ε (StateM σ) α'}
    {f : α → ExceptT ε (StateM σ) β} {f' : α' → ExceptT ε (StateM σ) β'} (hm : Follows T R m m')
    (hf : ∀ a a', R a a' → Follows T S (f a) (f' a')) : Follows T S (m >>= f) (m' >>= f') := by
  intro s t hst b s' hs
  obtain ⟨a, s₁, hms, hfs⟩ := outcome_bind_eq_ok.mp hs
  obtain ⟨a', t₁, hmt, ha, hst₁⟩ := hm hst hms
  obtain ⟨b', t', hft, hb, hst'⟩ := hf a a' ha hst₁ hfs
  exact ⟨b', t', outcome_bind_eq_ok.mpr ⟨a', t₁, hmt, hft⟩, hb, hst'⟩

/-- A step whose errors stay errors ends well where it does without an error. -/
theorem follows_tryCatch {m : ExceptT ε (StateM σ) α} {m' : ExceptT ε (StateM σ) α'}
    {f : ε → ExceptT ε (StateM σ) α} {f' : ε → ExceptT ε (StateM σ) α'} (hm : Follows T R m m')
    (hf : ∀ e s a t, outcome (f e) s ≠ (.ok a, t)) :
    Follows T R (tryCatch m f) (tryCatch m' f') := by
  intro s t hst a s' hs
  rw [outcome_tryCatch] at hs
  rcases hms : outcome m s with ⟨e | b, u⟩ <;> rw [hms] at hs
  · exact absurd hs (hf e u a s')
  · obtain ⟨rfl⟩ := Except.ok.inj (Prod.mk.inj hs).1
    obtain rfl := (Prod.mk.inj hs).2
    obtain ⟨b', t', hmt, hb, hst'⟩ := hm hst hms
    exact ⟨b', t', outcome_tryCatch_of_ok hmt f', hb, hst'⟩

/-- Steps that look at their states and go on by what they have seen. -/
theorem follows_get_bind {f : σ → ExceptT ε (StateM σ) β} {f' : σ → ExceptT ε (StateM σ) β'}
    (hf : ∀ s t, T s t → Follows T S (f s) (f' t)) : Follows T S (get >>= f) (get >>= f') := by
  intro s t hst b s' hs
  rw [outcome_get_bind] at hs
  rw [outcome_get_bind]
  exact hf s t hst hst hs

theorem follows_mapM {f : α → ExceptT ε (StateM σ) β} {f' : α' → ExceptT ε (StateM σ) β'}
    (hf : ∀ a a', R a a' → Follows T S (f a) (f' a')) {as : List α} {as' : List α'}
    (has : List.Forall₂ R as as') : Follows T (List.Forall₂ S) (as.mapM f) (as'.mapM f') := by
  induction has with
  | nil => exact follows_pure .nil
  | cons ha _ ih =>
    rw [List.mapM_cons, List.mapM_cons]
    exact follows_bind (hf _ _ ha) fun b b' hb ↦ follows_bind ih fun bs bs' hbs ↦
      follows_pure (.cons hb hbs)

theorem follows_forM {f f' : α → ExceptT ε (StateM σ) PUnit} {as : List α}
    (hf : ∀ a ∈ as, Follows T Eq (f a) (f' a)) : Follows T Eq (as.forM f) (as.forM f') := by
  induction as with
  | nil => exact follows_pure rfl
  | cons a as ih =>
    obtain ⟨ha, has⟩ := List.forall_mem_cons.mp hf
    exact follows_bind ha fun _ _ _ ↦ ih has

end Follows

/-! ## Steps that end alike -/

/-- Two ends of steps: both are well, with related results, or both are the same error.  The states
that are left are related in both cases. -/
inductive SameEnd (R : α → β → Prop) (T : σ → σ → Prop) : Except ε α × σ → Except ε β × σ → Prop where
  | ok {a : α} {b : β} {s t : σ} (result : R a b) (state : T s t) : SameEnd R T (.ok a, s) (.ok b, t)
  | error (e : ε) {s t : σ} (state : T s t) : SameEnd R T (.error e, s) (.error e, t)

/-- From states that are related in one way, two steps end alike, in states that are related in the
other way. -/
def Together (T T' : σ → σ → Prop) (R : α → β → Prop) (m : ExceptT ε (StateM σ) α)
    (m' : ExceptT ε (StateM σ) β) : Prop :=
  ∀ ⦃s t⦄, T s t → SameEnd R T' (outcome m s) (outcome m' t)

section Together

variable {α' β' : Type} {T T₁ T' : σ → σ → Prop} {R : α → α' → Prop} {S : β → β' → Prop}

theorem SameEnd.mono {x : Except ε α × σ} {x' : Except ε α' × σ} {R' : α → α' → Prop}
    (h : SameEnd R T x x') (hR : ∀ a a', R a a' → R' a a') (hT : ∀ s t, T s t → T' s t) :
    SameEnd R' T' x x' := by
  cases h with
  | ok result state => exact .ok (hR _ _ result) (hT _ _ state)
  | error e state => exact .error e (hT _ _ state)

/-- Steps that end alike fail alike. -/
theorem SameEnd.fails_iff {m : ExceptT ε (StateM σ) α} {m' : ExceptT ε (StateM σ) α'} {s t : σ}
    (h : SameEnd R T (outcome m s) (outcome m' t)) (e : ε) : Fails m s e ↔ Fails m' t e := by
  unfold Fails
  generalize outcome m s = x at h ⊢
  generalize outcome m' t = x' at h ⊢
  cases h <;> simp

theorem together_pure {a : α} {a' : α'} (h : R a a') :
    Together T T R (pure a : ExceptT ε (StateM σ) α) (pure a') :=
  fun _ _ hst ↦ .ok h hst

/-- The relation may be lost on the way as long as what it leaves implies the last one. -/
theorem together_bind {m : ExceptT ε (StateM σ) α} {m' : ExceptT ε (StateM σ) α'}
    {f : α → ExceptT ε (StateM σ) β} {f' : α' → ExceptT ε (StateM σ) β'} (hm : Together T T₁ R m m')
    (hT : ∀ s t, T₁ s t → T' s t) (hf : ∀ a a', R a a' → Together T₁ T' S (f a) (f' a')) :
    Together T T' S (m >>= f) (m' >>= f') := by
  intro s t hst
  rw [outcome_bind, outcome_bind]
  have hend := hm hst
  generalize outcome m s = x at hend ⊢
  generalize outcome m' t = x' at hend ⊢
  cases hend with
  | ok result state => exact hf _ _ result state
  | error e state => exact .error e (hT _ _ state)

end Together

end IceCube.Step
