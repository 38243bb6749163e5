namespace DocShell

/-! # Readers

A reader takes an item from the front of a list and hands back the rest. Part of
the result is that the rest is shorter than a bound, mostly the length of the
list, so a loop over readers needs no other reason to end. -/

structure Taken (ι α : Type) (bound : Nat) where
  item : ι
  rest : List α
  shorter : rest.length < bound

namespace Taken

variable {ι κ α : Type} {bound larger : Nat}

def map (transform : ι → κ) (taken : Taken ι α bound) : Taken κ α bound :=
  ⟨transform taken.item, taken.rest, taken.shorter⟩

def widen (taken : Taken ι α bound) (fits : bound ≤ larger) : Taken ι α larger :=
  ⟨taken.item, taken.rest, Nat.lt_of_lt_of_le taken.shorter fits⟩

@[simp] theorem item_map (transform : ι → κ) (taken : Taken ι α bound) :
    (taken.map transform).item = transform taken.item := rfl

@[simp] theorem item_widen (taken : Taken ι α bound) (fits : bound ≤ larger) :
    (taken.widen fits).item = taken.item := rfl

end Taken

end DocShell
