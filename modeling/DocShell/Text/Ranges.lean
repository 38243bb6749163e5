namespace DocShell.Text

/-! Character classes given as tables. A table lists inclusive ranges of code
points in ascending order, so a search may stop at the first range that starts
beyond the sought code point. -/

def inRanges (code : Nat) : List (Nat × Nat) → Bool
  | [] => false
  | (first, last) :: rest =>
      if code < first then false
      else if code ≤ last then true
      else inRanges code rest

theorem exists_range_of_inRanges {code : Nat} {ranges : List (Nat × Nat)}
    (found : inRanges code ranges = true) :
    ∃ range ∈ ranges, range.1 ≤ code ∧ code ≤ range.2 := by
  induction ranges with
  | nil => simp [inRanges] at found
  | cons head rest induction =>
      rcases head with ⟨first, last⟩
      simp only [inRanges] at found
      split at found
      · contradiction
      · split at found
        · exact ⟨(first, last), List.mem_cons_self, by omega, by assumption⟩
        · rcases induction found with ⟨range, member, bounds⟩
          exact ⟨range, List.mem_cons_of_mem _ member, bounds⟩

end DocShell.Text
