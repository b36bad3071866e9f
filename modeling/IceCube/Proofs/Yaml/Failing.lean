import IceCube.Yaml.Parser

/-!
# What keeps a text from being a document

The lexer and the parser end at problems that have a place in the text.  What else can end them is an
escape for a character that there is not, and what shows only when nodes are made into values are the
numbers that cannot be read.  So there are four ways in which something written like a value has none,
whatever the text is.
-/

namespace IceCube.Yaml

/-- Something that is written like a value has none. -/
inductive Valueless : Error → Prop where
  | character : Valueless Lexer.noCharacter
  | digits (base : Nat) : Valueless (Scalar.noDigits base)
  | many {n : Nat} (h : Scalar.digitLimit < n) : Valueless (Scalar.tooManyDigits n)
  | pieces : Valueless Scalar.tooManyPieces

/-- An error of a text, which has a place in it unless it is about a value. -/
inductive Error.Known : Error → Prop where
  | unprintable (c : Char) (position : Nat) : Known (.unprintable c position)
  | problem (text : String) (mark : Mark) : Known (.problem text mark)
  | valueless {e : Error} (h : Valueless e) : Known e

/-- No other errors end a step than those of texts. -/
def Knows {α : Type} (r : Except Error α) : Prop := ∀ e, r = .error e → e.Known

section Knows

variable {α β : Type}

end Knows

/-! ## Tokens -/

namespace Lexer

variable (l : Lexer)

attribute [local irreducible] next

end Lexer

namespace Parser

variable {α β : Type}

/-- No other errors end a part of the grammar than those of texts, if the error after the last token
is one. -/
def KnowsAfter (m : Parse α) : Prop :=
  ∀ i : Input, i.after.Known → match m.run i with
    | .ok (_, j) => j.after.Known
    | .error e => e.Known

theorem knowsAfter_pure (a : α) : KnowsAfter (pure a : Parse α) := fun _ h ↦ h

theorem knowsAfter_bind {m : Parse α} {f : α → Parse β} (hm : KnowsAfter m)
    (hf : ∀ a, KnowsAfter (f a)) : KnowsAfter (m >>= f) := by
  intro i hi
  have hstep := hm i hi
  rw [StateT.run_bind]
  cases hrun : m.run i with
  | error e =>
    rw [hrun] at hstep
    exact hstep
  | ok r =>
    rw [hrun] at hstep
    exact hf r.1 r.2 hstep

theorem knowsAfter_ite {p : Prop} [Decidable p] {m m' : Parse α} (hm : KnowsAfter m)
    (hm' : KnowsAfter m') : KnowsAfter (if p then m else m') := by
  split
  · exact hm
  · exact hm'

theorem knowsAfter_problem (text : String) (mark : Mark) :
    KnowsAfter (throw (.problem text mark) : Parse α) := fun _ _ ↦ .problem text mark

theorem knowsAfter_peek : KnowsAfter peek := by
  intro i hi
  rcases i with ⟨_ | ⟨t, ts⟩, after⟩
  · exact hi
  · exact hi

theorem knowsAfter_advance : KnowsAfter advance := fun _ h ↦ h

theorem knowsAfter_isNext (kinds : List TokenKind) : KnowsAfter (isNext kinds) :=
  knowsAfter_bind knowsAfter_peek fun _ ↦ knowsAfter_pure _

theorem knowsAfter_accept (kind : TokenKind) : KnowsAfter (accept kind) :=
  knowsAfter_bind knowsAfter_peek fun _ ↦
    knowsAfter_ite (knowsAfter_bind knowsAfter_advance fun _ ↦ knowsAfter_pure _)
      (knowsAfter_pure _)

theorem knowsAfter_fail (text : String) : KnowsAfter (fail text : Parse α) :=
  knowsAfter_bind knowsAfter_peek fun _ ↦ knowsAfter_problem _ _

theorem knowsAfter_unexpected (text : String) : KnowsAfter (unexpected text : Parse α) :=
  knowsAfter_bind knowsAfter_peek fun _ ↦ knowsAfter_fail _

/-- A comma stands before all parts but the first. -/
theorem knowsAfter_comma {first : Bool} (text : String) {f : PUnit → Parse α}
    (hf : ∀ u, KnowsAfter (f u)) :
    KnowsAfter (if !first then do
        if !(← accept .comma) then unexpected text >>= f else f ⟨⟩
      else f ⟨⟩) :=
  knowsAfter_ite (knowsAfter_bind (knowsAfter_accept _) fun _ ↦
    knowsAfter_ite (knowsAfter_bind (knowsAfter_unexpected _) hf) (hf _)) (hf _)

/-- There is a node unless one of some tokens comes next. -/
theorem knowsAfter_given {kinds : List TokenKind} {m : Parse Node} {f : Node → Parse α}
    (hm : KnowsAfter m) (hf : ∀ n, KnowsAfter (f n)) :
    KnowsAfter (isNext kinds >>= fun b ↦ if b then pure .nothing >>= f else m >>= f) :=
  knowsAfter_bind (knowsAfter_isNext kinds) fun _ ↦
    knowsAfter_ite (knowsAfter_bind (knowsAfter_pure _) hf) (knowsAfter_bind hm hf)

/-- A key and its value. -/
theorem knowsAfter_entry {kinds kinds' : List TokenKind} {m m' : Parse Node}
    {f : Token → Node → Node → Parse α} (hm : KnowsAfter m) (hm' : KnowsAfter m')
    (hf : ∀ token key value, KnowsAfter (f token key value)) :
    KnowsAfter (peek >>= fun token ↦ isNext kinds >>= fun b ↦
      if b then pure .nothing >>= fun key ↦ accept .value >>= fun b ↦
        if b then isNext kinds' >>= fun b ↦
          if b then pure .nothing >>= f token key else m' >>= f token key
        else pure .nothing >>= f token key
      else m >>= fun key ↦ accept .value >>= fun b ↦
        if b then isNext kinds' >>= fun b ↦
          if b then pure .nothing >>= f token key else m' >>= f token key
        else pure .nothing >>= f token key) := by
  refine knowsAfter_bind knowsAfter_peek fun token ↦ knowsAfter_given hm fun key ↦ ?_
  refine knowsAfter_bind (knowsAfter_accept _) fun _ ↦ knowsAfter_ite ?_ ?_
  · exact knowsAfter_given hm' (hf token key)
  · exact knowsAfter_bind (knowsAfter_pure _) (hf token key)

/-- What holds of all parts of the grammar with one fuel. -/
structure KnowsNodes (fuel : Nat) : Prop where
  node (block sequence : Bool) : KnowsAfter (node fuel block sequence)
  blockItems : KnowsAfter (blockItems fuel)
  openItems : KnowsAfter (openItems fuel)
  blockEntries : KnowsAfter (blockEntries fuel)
  flowItems (first : Bool) : KnowsAfter (flowItems fuel first)
  flowEntries (first : Bool) : KnowsAfter (flowEntries fuel first)

namespace KnowsNodes

variable {fuel : Nat}

theorem zero : KnowsNodes 0 where
  node _ _ := knowsAfter_fail _
  blockItems := knowsAfter_fail _
  openItems := knowsAfter_fail _
  blockEntries := knowsAfter_fail _
  flowItems _ := knowsAfter_fail _
  flowEntries _ := knowsAfter_fail _

theorem succ (h : KnowsNodes fuel) : KnowsNodes (fuel + 1) where
  node block sequence := by
    rw [Parser.node]
    refine knowsAfter_bind knowsAfter_peek fun token ↦ ?_
    split
    · exact knowsAfter_problem _ _
    · exact knowsAfter_bind knowsAfter_advance fun _ ↦ knowsAfter_pure _
    · exact knowsAfter_bind knowsAfter_advance fun _ ↦
        knowsAfter_bind (h.flowItems true) fun _ ↦ knowsAfter_pure _
    · exact knowsAfter_bind knowsAfter_advance fun _ ↦
        knowsAfter_bind (h.flowEntries true) fun _ ↦ knowsAfter_pure _
    · refine knowsAfter_ite (knowsAfter_bind h.openItems fun _ ↦ knowsAfter_pure _) ?_
      refine knowsAfter_ite (knowsAfter_bind knowsAfter_advance fun _ ↦
        knowsAfter_bind h.blockItems fun _ ↦ knowsAfter_pure _) ?_
      refine knowsAfter_ite (knowsAfter_bind knowsAfter_advance fun _ ↦
        knowsAfter_bind h.blockEntries fun _ ↦ knowsAfter_pure _) ?_
      exact knowsAfter_unexpected _
  blockItems := by
    rw [Parser.blockItems]
    refine knowsAfter_bind (knowsAfter_accept _) fun _ ↦ knowsAfter_ite ?_ ?_
    · exact knowsAfter_given (h.node true false) fun _ ↦
        knowsAfter_bind h.blockItems fun _ ↦ knowsAfter_pure _
    · exact knowsAfter_bind (knowsAfter_accept _) fun _ ↦
        knowsAfter_ite (knowsAfter_pure _) (knowsAfter_unexpected _)
  openItems := by
    rw [Parser.openItems]
    refine knowsAfter_bind (knowsAfter_accept _) fun _ ↦ knowsAfter_ite ?_ (knowsAfter_pure _)
    exact knowsAfter_given (h.node true false) fun _ ↦
      knowsAfter_bind h.openItems fun _ ↦ knowsAfter_pure _
  blockEntries := by
    rw [Parser.blockEntries]
    refine knowsAfter_bind (knowsAfter_accept _) fun _ ↦ knowsAfter_ite ?_ ?_
    · exact knowsAfter_entry (h.node true true) (h.node true true) fun _ _ _ ↦
        knowsAfter_bind h.blockEntries fun _ ↦ knowsAfter_pure _
    · exact knowsAfter_bind (knowsAfter_accept _) fun _ ↦
        knowsAfter_ite (knowsAfter_pure _) (knowsAfter_unexpected _)
  flowItems first := by
    rw [Parser.flowItems]
    refine knowsAfter_bind (knowsAfter_accept _) fun _ ↦ knowsAfter_ite (knowsAfter_pure _) ?_
    refine knowsAfter_comma _ fun _ ↦ knowsAfter_bind (knowsAfter_accept _) fun _ ↦
      knowsAfter_ite (knowsAfter_pure _) ?_
    refine knowsAfter_bind (knowsAfter_accept _) fun _ ↦ knowsAfter_ite ?_ ?_
    · exact knowsAfter_entry (h.node false false) (h.node false false) fun _ _ _ ↦
        knowsAfter_bind (h.flowItems false) fun _ ↦ knowsAfter_pure _
    · exact knowsAfter_bind (h.node false false) fun _ ↦
        knowsAfter_bind (h.flowItems false) fun _ ↦ knowsAfter_pure _
  flowEntries first := by
    rw [Parser.flowEntries]
    refine knowsAfter_bind (knowsAfter_accept _) fun _ ↦ knowsAfter_ite (knowsAfter_pure _) ?_
    refine knowsAfter_comma _ fun _ ↦ knowsAfter_bind (knowsAfter_accept _) fun _ ↦
      knowsAfter_ite (knowsAfter_pure _) ?_
    refine knowsAfter_bind (knowsAfter_accept _) fun _ ↦ knowsAfter_ite ?_ ?_
    · exact knowsAfter_entry (h.node false false) (h.node false false) fun _ _ _ ↦
        knowsAfter_bind (h.flowEntries false) fun _ ↦ knowsAfter_pure _
    · exact knowsAfter_bind knowsAfter_peek fun _ ↦ knowsAfter_bind (h.node false false) fun _ ↦
        knowsAfter_bind (h.flowEntries false) fun _ ↦ knowsAfter_pure _

end KnowsNodes

end Parser

/-! ## Values -/

namespace Node

variable {e : Error} {n : Node}

end Node

end IceCube.Yaml
