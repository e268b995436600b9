import Mathlib.Data.List.Basic

/-!
# Programs that may exit

A statement that may end the program is a function into `Except ε β`: `ok b` where the program
goes on with `b`, `error e` where it exits and leaves `e` behind. `Ends x Q E` is the rule of
postconditions for such a statement, one for each way it can end: what goes on satisfies `Q`, what
is left behind satisfies `E`. A loop over a list is `List.foldlM`, and its rule `Ends.foldlM` takes
an invariant that may mention the elements done so far.
-/

universe u v w

variable {ε : Type u} {α : Type v} {β γ : Type w}

/-- The statement goes on with a value in `Q` or exits with one in `E`. -/
def Ends (x : Except ε β) (Q : β → Prop) (E : ε → Prop) : Prop :=
  match x with
  | .ok b => Q b
  | .error e => E e

namespace Ends

variable {x : Except ε β} {Q Q' : β → Prop} {E E' : ε → Prop} {b : β}

@[simp] theorem ok_iff : Ends (.ok b : Except ε β) Q E ↔ Q b := Iff.rfl

/-- The rule of consequence. -/
theorem mono (h : Ends x Q E) (hQ : ∀ b, Q b → Q' b) (hE : ∀ e, E e → E' e) : Ends x Q' E' := by
  cases x with
  | ok b => exact hQ b h
  | error e => exact hE e h

/-- The rule of sequencing: what exits first is left behind as it is. -/
theorem bind {f : β → Except ε γ} {R : γ → Prop} (h : Ends x Q E)
    (hf : ∀ b, Q b → Ends (f b) R E) : Ends (x >>= f) R E := by
  cases x with
  | ok b => exact hf b h
  | error e => exact h

/-- A statement that has no way to exit goes on. -/
theorem exists_ok (h : Ends x Q fun _ => False) : ∃ b, x = .ok b ∧ Q b := by
  cases x with
  | ok b => exact ⟨b, rfl, h⟩
  | error e => exact h.elim

/-- The rule of the loop: the invariant `I` holds of the elements done so far, and each element
keeps it or exits with a value in `E`. -/
theorem foldlM {f : β → α → Except ε β} {I : List α → β → Prop} (l : List α) (hb : I [] b)
    (hf : ∀ pre a post b, l = pre ++ a :: post → I pre b → Ends (f b a) (I (pre ++ [a])) E) :
    Ends (l.foldlM f b) (I l) E := by
  suffices ∀ post pre b, l = pre ++ post → I pre b → Ends (post.foldlM f b) (I l) E from
    this l [] b rfl hb
  intro post
  induction post with
  | nil =>
    intro pre b hl hI
    simpa [hl, pure, Except.pure] using hI
  | cons a post ih =>
    intro pre b hl hI
    rw [List.foldlM_cons]
    exact Ends.bind (hf pre a post b hl hI) fun c hc => ih (pre ++ [a]) c (by simp [hl]) hc

end Ends
