import IceCube.Proofs.Json.Lossless
import IceCube.Proofs.Step

/-!
# What is read is plain

The numbers of a document that was read are of the 64-bit format, and its objects have each name
once.  So writing what was read gives a text that is read as the same document again.
-/

namespace IceCube.Json

open Number Step

/-! ## Words and numbers -/

theorem plain_settle_of_number {cs rest : List Char} {v : Json}
    (h : Reader.number? cs = some (v, rest)) : v.settle.Plain := by
  unfold Reader.number? at h
  obtain ⟨whole, -, hrest⟩ := Option.bind_eq_some_iff.mp h
  dsimp only at hrest
  split at hrest
  · cases hrest
    trivial
  · cases hrest
    exact Binary64.proper_ofDecimal ..

theorem plain_settle_of_scalar {cs rest : List Char} {v : Json}
    (h : Reader.scalar? cs = some (v, rest)) : v.settle.Plain := by
  have hword {w : String} {u : Json}
      (h : ((Reader.afterWord? w.toList cs).map fun rest ↦ (u, rest)) = some (v, rest))
      (hu : u.settle.Plain) : v.settle.Plain := by
    obtain ⟨rest', -, heq⟩ := Option.map_eq_some_iff.mp h
    cases heq
    exact hu
  have hor {a b : Option (Json × List Char)} (h : (a <|> b) = some (v, rest)) :
      a = some (v, rest) ∨ b = some (v, rest) := by
    cases a with
    | none => exact .inr h
    | some _ => exact .inl h
  -- the words one after the other, and at last a number
  rcases hor h with h | h
  · exact hword h trivial
  rcases hor h with h | h
  · exact hword h trivial
  rcases hor h with h | h
  · exact hword h trivial
  rcases hor h with h | h
  · exact hword h trivial
  rcases hor h with h | h
  · exact hword h trivial
  rcases hor h with h | h
  · exact hword h trivial
  · exact plain_settle_of_number h

/-! ## Documents -/

theorem plain_ofEntries {ms : List (String × Json)} (h : PlainMembers ms) :
    (Json.obj (Table.ofEntries ms)).Plain :=
  ⟨Table.nodup_keys_ofEntries ms,
    plainMembers_of_forall fun m hm ↦ h.forall m (Table.mem_of_mem_ofEntries hm)⟩

/-- Every part of a text that is read gives something plain once its names are settled.  The
induction is on the fuel, for values, items and members at once. -/
theorem plain_settle_of_read (fuel : Nat) :
    (∀ cs v rest, Reader.value fuel cs = .ok (v, rest) → v.settle.Plain) ∧
    (∀ cs vs rest, Reader.items fuel cs = .ok (vs, rest) → PlainItems (settleItems vs)) ∧
    ∀ cs ms rest, Reader.members fuel cs = .ok (ms, rest) → PlainMembers (settleMembers ms) := by
  induction fuel with
  | zero => exact ⟨nofun, nofun, nofun⟩
  | succ fuel ih =>
    obtain ⟨hvalue, hitems, hmembers⟩ := ih
    refine ⟨fun cs v rest h ↦ ?_, fun cs vs rest h ↦ ?_, fun cs ms rest h ↦ ?_⟩
    · unfold Reader.value at h
      split at h
      · obtain ⟨⟨s, after⟩, -, hs⟩ := except_bind_eq_ok.mp h
        cases hs
        trivial
      · split at h
        · cases h
          trivial
        · obtain ⟨⟨vs, after⟩, hvs, hs⟩ := except_bind_eq_ok.mp h
          cases hs
          exact hitems _ _ _ hvs
      · split at h
        · cases h
          exact plain_ofEntries trivial
        · obtain ⟨⟨ms, after⟩, hms, hs⟩ := except_bind_eq_ok.mp h
          cases hs
          exact plain_ofEntries (hmembers _ _ _ hms)
      · split at h
        · rename_i hscalar
          cases h
          exact plain_settle_of_scalar hscalar
        · cases h
    · unfold Reader.items at h
      obtain ⟨⟨v, after⟩, hv, hs⟩ := except_bind_eq_ok.mp h
      dsimp only at hs
      split at hs
      · cases hs
        exact ⟨hvalue _ _ _ hv, trivial⟩
      · obtain ⟨⟨more, after'⟩, hmore, hend⟩ := except_bind_eq_ok.mp hs
        cases hend
        exact ⟨hvalue _ _ _ hv, hitems _ _ _ hmore⟩
      · cases hs
    · unfold Reader.members at h
      split at h
      · obtain ⟨⟨name, after⟩, -, hs⟩ := except_bind_eq_ok.mp h
        dsimp only at hs
        split at hs
        · obtain ⟨⟨v, after'⟩, hv, hs'⟩ := except_bind_eq_ok.mp hs
          dsimp only at hs'
          split at hs'
          · cases hs'
            exact ⟨hvalue _ _ _ hv, trivial⟩
          · obtain ⟨⟨more, after''⟩, hmore, hend⟩ := except_bind_eq_ok.mp hs'
            cases hend
            exact ⟨hvalue _ _ _ hv, hmembers _ _ _ hmore⟩
          · cases hs'
        · cases hs
      · cases h

theorem plain_of_read {s : String} {v : Json} (h : read s = .ok v) : v.Plain := by
  cases hverbatim : readVerbatim s with
  | error e => simp [read, hverbatim, Except.map] at h
  | ok u =>
    simp only [read, hverbatim, Except.map, Except.ok.injEq] at h
    subst h
    unfold readVerbatim at hverbatim
    cases hdocument : Reader.document s.toList with
    | error e => simp [hdocument, Except.mapError] at hverbatim
    | ok w =>
      simp only [hdocument, Except.mapError, Except.ok.injEq] at hverbatim
      subst hverbatim
      unfold Reader.document at hdocument
      split at hdocument
      · cases hdocument
      · obtain ⟨⟨x, rest⟩, hx, hend⟩ := except_bind_eq_ok.mp hdocument
        dsimp only at hend
        split at hend
        · cases hend
          exact (plain_settle_of_read _).1 _ _ _ hx
        · cases hend

end IceCube.Json
