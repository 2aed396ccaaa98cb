import GameBoy.Transaction

/-!
# Results of a transaction

`Transaction.Yields` bounds the result of a transaction from its text alone, whatever memory answers
to its accesses.  `Yields.run` carries such a bound over to every run against every memory.
-/

namespace GameBoy.Transaction

variable {α β μ σ : Type} {P : α → Prop} {Q : β → Prop} {t : Transaction α}

/-- Every result that a transaction can end with, whatever it reads, has a property. -/
def Yields (P : α → Prop) : Transaction α → Prop
  | done a => P a
  | read _ next => ∀ b, (next b).Yields P
  | write _ _ next => next.Yields P
  | poll next => ∀ b, (next b).Yields P
  | acknowledge _ next => next.Yields P
  | report _ next => next.Yields P

/-- The results of a sequence are those of its second part for results of the first. -/
theorem Yields.bind {f : α → Transaction β} (ht : t.Yields P) (hf : ∀ a, P a → (f a).Yields Q) :
    (t >>= f).Yields Q := by
  show (t.bind f).Yields Q
  induction t with
  | done a => exact hf a ht
  | read addr next ih => exact fun b => ih b (ht b)
  | write addr value next ih => exact ih ht
  | poll next ih => exact fun b => ih b (ht b)
  | acknowledge source next ih => exact ih ht
  | report event next ih => exact ih ht

/-- The result of a run is one of those that the text allows. -/
theorem Yields.run [Memory μ] (h : t.Yields P) (listener : Listener σ) (m : μ) (s : σ) :
    P (t.run listener m s).1 := by
  induction t generalizing m s with
  | done a => exact h
  -- The text allows for every byte, so also for the one that is read.
  | read addr next ih => exact ih _ (h _) m _
  | write addr value next ih => exact ih h _ _
  | poll next ih => exact ih _ (h _) m s
  | acknowledge source next ih => exact ih h _ s
  | report event next ih => exact ih h m _

end GameBoy.Transaction
