import IceCube.Proofs.Json.RoundTrip
import IceCube.Proofs.Number.Shortest

/-!
# Documents that come back as they were

A number of the 64-bit format is written with digits enough to read back as itself.  So a document
whose objects have no two members of one name comes back as it was.
-/

namespace IceCube

open Number

/-- A number of the format is what its text denotes. -/
theorem Number.Binary64.reread_eq_self {x : Binary64} (h : x.Proper) : x.reread = x := by
  cases x with
  | nan => rfl
  | infinite negative => cases negative <;> rfl
  | finite negative m e =>
    obtain ⟨d, hread, hzero, hshortest⟩ := Json.Reader.scalar?_finite negative m e
    have hread := hread [] Json.Reader.delimited_nil
    rw [List.append_nil] at hread
    rw [Binary64.reread, hread]
    change Binary64.ofDecimal negative d.digits d.exponent = .finite negative m e
    rcases Nat.eq_zero_or_pos m with rfl | hm
    · have hleast : e = -1074 := h.2.2.2.resolve_left (by decide)
      rw [hzero rfl, hleast]
      rfl
    · obtain ⟨n, f, hfills, hchosen⟩ := hshortest hm
      have hpos : 0 < n := by
        have hdigits : 0 < (shortestOf (scaled m 1 (-e)).1 (scaled m 1 (-e)).2).digits :=
          shortestOf_pos (scaled_fst_pos hm _) (scaled_pos one_pos _)
        obtain ⟨k, hk, -⟩ := hchosen
        rw [hk] at hdigits
        exact Nat.pos_of_mul_pos_right hdigits
      calc Binary64.ofDecimal negative d.digits d.exponent
          = Binary64.ofDecimal negative n f := Binary64.ofDecimal_of_fills negative hpos hfills
        _ = _ := (Binary64.ofDecimal_of_fills negative hpos hchosen).symm
        _ = .finite negative m e := ofDecimal_shortestOf negative h hm

namespace Json

mutual

/-- A document whose numbers are of the format, and whose objects have no two members of one
name. -/
def Plain : Json → Prop
  | .float x => x.Proper
  | .arr vs => PlainItems vs
  | .obj ms => (Table.keys ms).Nodup ∧ PlainMembers ms
  | _ => True

/-- Items that are plain. -/
def PlainItems : List Json → Prop
  | [] => True
  | v :: vs => v.Plain ∧ PlainItems vs

/-- Members whose values are plain. -/
def PlainMembers : List (String × Json) → Prop
  | [] => True
  | (_, v) :: ms => v.Plain ∧ PlainMembers ms

end

theorem plainMembers_of_forall {ms : List (String × Json)} (h : ∀ m ∈ ms, m.2.Plain) :
    PlainMembers ms := by
  induction ms with
  | nil => trivial
  | cons m ms ih =>
    obtain ⟨hm, hms⟩ := List.forall_mem_cons.mp h
    exact ⟨hm, ih hms⟩

theorem plainItems_of_forall {vs : List Json} (h : ∀ v ∈ vs, v.Plain) : PlainItems vs := by
  induction vs with
  | nil => trivial
  | cons v vs ih =>
    obtain ⟨hv, hvs⟩ := List.forall_mem_cons.mp h
    exact ⟨hv, ih hvs⟩

theorem PlainMembers.forall {ms : List (String × Json)} (h : PlainMembers ms) :
    ∀ m ∈ ms, m.2.Plain := by
  induction ms with
  | nil => simp
  | cons m ms ih => exact List.forall_mem_cons.mpr ⟨h.1, ih h.2⟩

theorem PlainItems.forall {vs : List Json} (h : PlainItems vs) : ∀ v ∈ vs, v.Plain := by
  induction vs with
  | nil => simp
  | cons v vs ih => exact List.forall_mem_cons.mpr ⟨h.1, ih h.2⟩

mutual

theorem Plain.reread_eq_self {v : Json} (h : v.Plain) : v.reread = v := by
  cases v with
  | float x => rw [reread, Binary64.reread_eq_self h]
  | arr vs => rw [reread, PlainItems.reread_eq_self h]
  | obj ms => rw [reread, PlainMembers.reread_eq_self h.2]
  | _ => rw [reread] <;> simp

theorem PlainItems.reread_eq_self {vs : List Json} (h : PlainItems vs) : rereadItems vs = vs := by
  cases vs with
  | nil => rfl
  | cons v vs => rw [rereadItems, Plain.reread_eq_self h.1, PlainItems.reread_eq_self h.2]

theorem PlainMembers.reread_eq_self {ms : List (String × Json)} (h : PlainMembers ms) :
    rereadMembers ms = ms := by
  cases ms with
  | nil => rfl
  | cons m ms =>
    obtain ⟨name, v⟩ := m
    rw [rereadMembers, Plain.reread_eq_self h.1, PlainMembers.reread_eq_self h.2]

end

mutual

theorem Plain.settle_eq_self {v : Json} (h : v.Plain) : v.settle = v := by
  cases v with
  | arr vs => rw [settle, PlainItems.settle_eq_self h]
  | obj ms => rw [settle, PlainMembers.settle_eq_self h.2, Table.ofEntries_eq_self h.1]
  | _ => rw [settle] <;> simp

theorem PlainItems.settle_eq_self {vs : List Json} (h : PlainItems vs) : settleItems vs = vs := by
  cases vs with
  | nil => rfl
  | cons v vs => rw [settleItems, Plain.settle_eq_self h.1, PlainItems.settle_eq_self h.2]

theorem PlainMembers.settle_eq_self {ms : List (String × Json)} (h : PlainMembers ms) :
    settleMembers ms = ms := by
  cases ms with
  | nil => rfl
  | cons m ms =>
    obtain ⟨name, v⟩ := m
    rw [settleMembers, Plain.settle_eq_self h.1, PlainMembers.settle_eq_self h.2]

end

/-- A plain document is what its text denotes, in whatever style it is written. -/
theorem Plain.read_write {v : Json} (h : v.Plain) (style : Style) : read (v.write style) = .ok v := by
  rw [Json.read_write, h.reread_eq_self, h.settle_eq_self]

theorem Plain.read_write_line {v : Json} (h : v.Plain) (style : Style) :
    read (v.write style ++ "\n") = .ok v := by
  have hspaces : Reader.Spaces "\n".toList := by simp [Reader.Spaces, Reader.isSpace]
  rw [read, readVerbatim_write style v hspaces, h.reread_eq_self, Except.map, h.settle_eq_self]

end Json

end IceCube
