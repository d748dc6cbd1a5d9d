import Mathlib.Data.Set.Insert

/-!
# Muduo.Lib.Talk

A sequence of messages about names that are opened and closed.

A message opens a name, closes it, or is about a name that is open.  `Fit has ts`
says that the messages `ts` can be read by someone to whom the names in `has` are
open.  More open names do no harm (`Fit.mono`), so that a reader may keep a name open
that has been closed.
-/

namespace Lib

/-- What a message says about a name. -/
inductive Talk (ι : Type u)
  | opens (i : ι)
  | closes (i : ι)
  | mentions (i : ι)

variable {ι : Type u} {has has' : Set ι} {ts us : List (Talk ι)}

/-- The names that are open after a message. -/
def Talk.after (has : Set ι) : Talk ι → Set ι
  | opens i => insert i has
  | closes i => has \ {i}
  | mentions _ => has

/-- The message is about a name that is open, or opens one. -/
def Talk.Fits (has : Set ι) : Talk ι → Prop
  | opens _ => True
  | closes i | mentions i => i ∈ has

/-- The names that are open after some messages. -/
def opened (has : Set ι) (ts : List (Talk ι)) : Set ι := ts.foldl Talk.after has

def Fit (has : Set ι) : List (Talk ι) → Prop
  | [] => True
  | t :: ts => t.Fits has ∧ Fit (t.after has) ts

theorem Talk.after_mono (h : has ⊆ has') (t : Talk ι) : t.after has ⊆ t.after has' := by
  cases t with
  | opens i => exact Set.insert_subset_insert h
  | closes i => exact fun j hj => ⟨h hj.1, hj.2⟩
  | mentions i => exact h

theorem opened_append : opened has (ts ++ us) = opened (opened has ts) us := List.foldl_append

theorem opened_mono (h : has ⊆ has') : opened has ts ⊆ opened has' ts := by
  induction ts generalizing has has' with
  | nil => exact h
  | cons t ts ih => exact ih (t.after_mono h)

theorem Fit.mono (hfit : Fit has ts) (h : has ⊆ has') : Fit has' ts := by
  induction ts generalizing has has' with
  | nil => trivial
  | cons t ts ih =>
    refine ⟨?_, ih hfit.2 (t.after_mono h)⟩
    cases t with
    | opens i => trivial
    | closes i | mentions i => exact h hfit.1

theorem Fit.append (hts : Fit has ts) (hus : Fit (opened has ts) us) : Fit has (ts ++ us) := by
  induction ts generalizing has with
  | nil => exact hus
  | cons t ts ih => exact ⟨hts.1, ih hts.2 hus⟩

end Lib
