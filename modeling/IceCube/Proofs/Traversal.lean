import Mathlib.Data.List.Forall2

/-!
# Lists gone through with a function that can fail

Going through a list fails as soon as one of its members does, and what comes out stands member by
member where its origin stood.
-/

namespace IceCube

variable {α β : Type}

theorem mapM_eq_some_iff {f : α → Option β} {as : List α} {bs : List β} :
    as.mapM f = some bs ↔ List.Forall₂ (fun a b ↦ f a = some b) as bs := by
  induction as generalizing bs with
  | nil => simp [eq_comm]
  | cons a as ih =>
    rw [List.mapM_cons, List.forall₂_cons_left_iff]
    simp only [Option.bind_eq_bind, Option.bind_eq_some_iff, Option.pure_def, Option.some.injEq, ih]
    constructor
    · rintro ⟨b, hb, bs, hbs, rfl⟩
      exact ⟨b, bs, hb, hbs, rfl⟩
    · rintro ⟨b, bs, hb, hbs, rfl⟩
      exact ⟨b, hb, bs, hbs, rfl⟩

theorem isSome_mapM (f : α → Option β) (as : List α) :
    (as.mapM f).isSome = as.all fun a ↦ (f a).isSome := by
  induction as with
  | nil => rfl
  | cons a as ih =>
    rw [List.mapM_cons, List.all_cons, ← ih]
    cases f a <;> cases as.mapM f <;> rfl

theorem exists_of_mem_mapM {f : α → Option β} {as : List α} {bs : List β} {b : β}
    (h : as.mapM f = some bs) (hb : b ∈ bs) : ∃ a ∈ as, f a = some b := by
  induction mapM_eq_some_iff.mp h with
  | nil => cases hb
  | cons hhead htail ih =>
    cases hb with
    | head => exact ⟨_, .head _, hhead⟩
    | tail _ hb =>
      obtain ⟨a, ha, hfound⟩ := ih (mapM_eq_some_iff.mpr htail) hb
      exact ⟨a, .tail _ ha, hfound⟩

theorem length_of_mapM {f : α → Option β} {as : List α} {bs : List β} (h : as.mapM f = some bs) :
    bs.length = as.length :=
  (mapM_eq_some_iff.mp h).length_eq.symm

end IceCube
