import Mathlib
import DocShell.Proofs.Expr.Derivation
import DocShell.Proofs.Expr.Height
import DocShell.Proofs.Value.Lexemes

namespace DocShell.Grammar

open DocShell.Expr

/-! # How high expressions of so many levels are -/

def reach (levels : Nat) : Nat := levels * (levels + 1) / 2 + 1

theorem reach_succ (levels : Nat) : reach (levels + 1) = reach levels + levels + 1 := by
  have split : (levels + 1) * (levels + 1 + 1) = levels * (levels + 1) + 2 * (levels + 1) := by
    rw [← Nat.add_mul, Nat.mul_comm]
  rw [reach, reach, split, Nat.add_mul_div_left _ _ Nat.two_pos]
  omega

theorem reach_mono {less levels : Nat} (fits : less ≤ levels) : reach less ≤ reach levels := by
  induction fits with
  | refl => exact Nat.le_refl _
  | step _ induction =>
      rw [reach_succ]
      omega

theorem succ_le_reach (levels : Nat) : levels + 1 ≤ reach levels := by
  induction levels with
  | zero => exact Nat.le_refl 1
  | succ levels induction =>
      rw [reach_succ]
      omega

/-- Properties of items go from the form to the list. -/
theorem Listed.forall {ι : Type} {each last : Form ι} {levels : Nat} {tokens : List Token}
    {items : List ι} (listed : Listed each last levels tokens items) {holds : ι → Prop}
    (eachHolds : ∀ less tokens item, each less tokens item → less ≤ levels → holds item)
    (lastHolds : ∀ less tokens item, last less tokens item → less ≤ levels → holds item) :
    ∀ item ∈ items, holds item := by
  induction listed with
  | nil =>
      intro item member
      cases member
  | last only =>
      intro item member
      exact List.mem_singleton.mp member ▸ lastHolds _ _ _ only (Nat.le_refl _)
  | cons first mark others induction =>
      intro item member
      rcases List.mem_cons.mp member with rfl | later
      · exact eachHolds _ _ _ first (Nat.le_max_left _ _)
      · exact induction
          (fun less tokens item derived fits =>
            eachHolds less tokens item derived (Nat.le_trans fits (Nat.le_max_right _ _)))
          (fun less tokens item derived fits =>
            lastHolds less tokens item derived (Nat.le_trans fits (Nat.le_max_right _ _)))
          item later

def Inside (form : Form Expr) (levels : Nat) (expr : Expr) : Prop :=
  (∃ position label, expr = .name position label) ∨
    ∃ less tokens, less ≤ levels ∧ form less tokens expr

section

variable {form : Form Expr} {levels : Nat} {tokens : List Token}

theorem Listed.inside_arguments {given : List Expr} (listed : Listed form form levels tokens given) :
    ∀ argument ∈ given, ∃ less tokens, less ≤ levels ∧ form less tokens argument :=
  listed.forall (fun less tokens _ derived fits => ⟨less, tokens, fits, derived⟩)
    fun less tokens _ derived fits => ⟨less, tokens, fits, derived⟩

theorem Item.inside {item : Option Expr} (derived : Item form levels tokens item) :
    ∃ expr, item = some expr ∧ form levels tokens expr := by
  cases derived with
  | present inner => exact ⟨_, rfl, inner⟩

theorem Listed.inside_items {items : List (Option Expr)}
    (listed : Listed (ItemOrHole form) (Item form) levels tokens items) :
    ∀ expr ∈ items.filterMap id, Inside form levels expr := by
  have each : ∀ item ∈ items, ∀ expr, item = some expr → Inside form levels expr := by
    refine listed.forall (fun less tokens item derived fits expr equal => ?_)
      fun less tokens item derived fits expr equal => ?_
    · subst equal
      cases derived with
      | item inner =>
          rcases inner.inside with ⟨_, equal, derived⟩
          cases equal
          exact .inr ⟨less, tokens, fits, derived⟩
    · subst equal
      rcases derived.inside with ⟨_, equal, derived⟩
      cases equal
      exact .inr ⟨less, tokens, fits, derived⟩
  intro expr member
  rcases List.mem_filterMap.mp member with ⟨item, belongs, equal⟩
  exact each item belongs expr equal

theorem Listed.inside_fields {fields : List (String × Expr)}
    (listed : Listed (Field form) (Field form) levels tokens fields) :
    ∀ expr ∈ fields.map (·.2), Inside form levels expr := by
  have each : ∀ field ∈ fields, Inside form levels field.2 := by
    have one (less : Nat) (tokens : List Token) (field : String × Expr)
        (derived : Field form less tokens field) (fits : less ≤ levels) :
        Inside form levels field.2 := by
      cases derived with
      | shorthand word => exact .inl ⟨_, _, rfl⟩
      | keyed spelled mark inner => exact .inr ⟨less, _, fits, inner⟩
    exact listed.forall one one
  intro expr member
  rcases List.mem_map.mp member with ⟨field, belongs, rfl⟩
  exact each field belongs

/-- The first of some suffixes, with what it stands on and what it holds besides. -/
theorem Suffixes.first {owner whole : Expr} (suffixes : Suffixes form levels owner tokens whole) :
    (levels = 0 ∧ whole = owner) ∨ ∃ less rest link, less < levels ∧ link.owner? = some owner ∧
      (∀ child ∈ link.children, child = owner ∨ ∃ inner tokens, inner < levels ∧
        form inner tokens child) ∧ Suffixes form less link rest whole := by
  cases suffixes with
  | nil => exact .inl ⟨rfl, rfl⟩
  | member mark word later =>
      refine .inr ⟨_, _, _, Nat.lt_succ_self _, rfl, fun child member => ?_, later⟩
      exact .inl (List.mem_singleton.mp member)
  | index opens inner closes later =>
      refine .inr ⟨_, _, _, Nat.lt_succ_of_le (Nat.le_max_right _ _), rfl,
        fun child member => ?_, later⟩
      rcases List.mem_cons.mp member with rfl | second
      · exact .inl rfl
      · rw [List.mem_singleton.mp second]
        exact .inr ⟨_, _, Nat.lt_succ_of_le (Nat.le_max_left _ _), inner⟩
  | call opens inner closes later =>
      refine .inr ⟨_, _, _, Nat.lt_succ_of_le (Nat.le_max_right _ _), rfl,
        fun child member => ?_, later⟩
      rcases List.mem_cons.mp member with rfl | argument
      · exact .inl rfl
      · rcases inner.inside_arguments child argument with ⟨less, tokens, fits, derived⟩
        exact .inr ⟨less, tokens, Nat.lt_succ_of_le (Nat.le_trans fits (Nat.le_max_left _ _)),
          derived⟩

/-! ## The bound -/

def Bounded (form : Form Expr) (levels : Nat) : Prop :=
  ∀ less tokens expr, form less tokens expr → less ≤ levels → expr.height ≤ reach less

theorem Bounded.mono {fewer : Nat} (bounded : Bounded form levels) (fits : fewer ≤ levels) :
    Bounded form fewer :=
  fun less tokens expr derived low => bounded less tokens expr derived (Nat.le_trans low fits)

theorem Bounded.inside (bounded : Bounded form levels) {expr : Expr}
    (inside : Inside form levels expr) : expr.height ≤ reach levels := by
  rcases inside with ⟨position, label, rfl⟩ | ⟨less, tokens, fits, derived⟩
  · exact Nat.le_trans (Nat.le_add_left 1 levels) (succ_le_reach levels)
  · exact Nat.le_trans (bounded _ _ _ derived fits) (reach_mono fits)

theorem Suffixes.height_le {owner whole : Expr} {bound : Nat}
    (suffixes : Suffixes form levels owner tokens whole)
    (bounded : ∀ less < levels, Bounded form less)
    (start : owner.height + levels ≤ bound) (room : reach levels ≤ bound) :
    whole.height ≤ bound := by
  induction levels using Nat.strongRecOn generalizing owner tokens with
  | ind levels induction =>
      rcases suffixes.first with ⟨rfl, rfl⟩ | ⟨less, rest, link, fewer, _, children, later⟩
      · exact start
      · rcases Nat.exists_eq_add_one_of_ne_zero (Nat.ne_zero_of_lt fewer) with ⟨before, rfl⟩
        have split := reach_succ before
        have height : link.height ≤ (bound - (before + 1)) + 1 := by
          refine height_le_succ_iff.mpr fun child member => ?_
          rcases children child member with rfl | ⟨inner, tokens, fits, derived⟩
          · omega
          · have low := bounded inner fits _ _ _ derived (Nat.le_refl _)
            have high : reach inner ≤ reach before := reach_mono (by omega)
            omega
        refine induction less fewer later
          (fun lower fits => bounded lower (Nat.lt_trans fits fewer)) ?_
          (Nat.le_trans (reach_mono (Nat.le_of_lt fewer)) room)
        omega

theorem Path.height_le {start : Position} {callee whole : Expr} {behind : List Token} {bound : Nat}
    (path : Path form levels start callee tokens behind whole) (bounded : Bounded form levels)
    (named : callee.height + levels ≤ bound) (room : reach levels ≤ bound) :
    whole.height ≤ bound + 1 := by
  induction path with
  | bare =>
      refine height_le_succ_iff.mpr fun child member => ?_
      rw [children, List.mem_singleton] at member
      exact member ▸ named
  | call opens inner closes =>
      refine height_le_succ_iff.mpr fun child member => ?_
      rcases List.mem_cons.mp member with rfl | argument
      · exact Nat.le_trans (Nat.le_add_right _ _) named
      · rcases inner.inside_arguments child argument with ⟨less, tokens, fits, derived⟩
        exact Nat.le_trans (bounded _ _ _ derived fits) (Nat.le_trans (reach_mono fits) room)
  | member mark word later induction =>
      refine induction (bounded.mono (Nat.le_succ _)) ?_
        (Nat.le_trans (reach_mono (Nat.le_succ _)) room)
      rw [height]
      omega

theorem Primary.height_le {behind : List Token} {expr : Expr}
    (primary : Primary form levels tokens behind expr) (bounded : Bounded form levels) :
    expr.height ≤ reach levels + 1 := by
  cases primary with
  | literal => exact Nat.le_add_left 1 _
  | name => exact Nat.le_add_left 1 _
  | group opens inside => exact Nat.le_succ_of_le (bounded _ _ _ inside (Nat.le_refl _))
  | array opens inside =>
      have low := bounded.mono (Nat.le_succ _)
      refine height_le_succ_iff.mpr fun child member => ?_
      exact Nat.le_trans (low.inside (inside.inside_items child member)) (reach_mono (Nat.le_succ _))
  | object opens inside =>
      have low := bounded.mono (Nat.le_succ _)
      refine height_le_succ_iff.mpr fun child member => ?_
      exact Nat.le_trans (low.inside (inside.inside_fields child member)) (reach_mono (Nat.le_succ _))
  | new new word path =>
      refine path.height_le bounded ?_ (Nat.le_refl _)
      rw [height, Nat.add_comm]
      exact succ_le_reach _

end

theorem Expression.bounded (levels : Nat) : Bounded Expression levels := by
  induction levels using Nat.strongRecOn with
  | ind levels induction =>
      intro less tokens expr expression fits
      cases expression with
      | @signed inside token tokens sign operand reads inner =>
          have low := induction inside (by omega) _ _ _ inner (Nat.le_refl _)
          rw [height, reach_succ]
          omega
      | @chain first later front back start _ primary suffixes =>
          have low := primary.height_le (induction first (by omega))
          have frontReach : reach first ≤ reach (max first later) := reach_mono (Nat.le_max_left _ _)
          have backReach : reach later ≤ reach (max first later) := reach_mono (Nat.le_max_right _ _)
          have split := reach_succ (max first later)
          exact suffixes.height_le (fun fewer bound => induction fewer (by omega)) (by omega)
            (by omega)

/-! ## Where the levels cover the height -/

section

variable {form : Form Expr} {levels : Nat} {tokens : List Token}

theorem Suffixes.occurs {owner whole : Expr}
    (suffixes : Suffixes form levels owner tokens whole) : Occurs owner whole := by
  induction suffixes with
  | nil => exact .here
  | member mark word later induction =>
      exact (Occurs.inside (mem_children_of_owner? rfl) .here).trans induction
  | index opens inner closes later induction =>
      exact (Occurs.inside (mem_children_of_owner? rfl) .here).trans induction
  | call opens inner closes later induction =>
      exact (Occurs.inside (mem_children_of_owner? rfl) .here).trans induction

def Covered (form : Form Expr) (levels : Nat) : Prop :=
  ∀ less tokens expr, form less tokens expr → less ≤ levels → expr.UnchainedThroughout →
    expr.height ≤ less

theorem Covered.mono {fewer : Nat} (covered : Covered form levels) (fits : fewer ≤ levels) :
    Covered form fewer :=
  fun less tokens expr derived low => covered less tokens expr derived (Nat.le_trans low fits)

theorem Covered.inside (covered : Covered form levels) {expr : Expr}
    (inside : Inside form levels expr) (unchained : expr.UnchainedThroughout) :
    expr.height ≤ levels + 1 := by
  rcases inside with ⟨position, label, rfl⟩ | ⟨less, tokens, fits, derived⟩
  · exact Nat.le_add_left 1 levels
  · exact Nat.le_succ_of_le (Nat.le_trans (covered _ _ _ derived fits unchained) fits)

theorem Path.owner?_eq_none {start : Position} {callee whole : Expr} {behind : List Token}
    (path : Path form levels start callee tokens behind whole) : whole.owner? = none := by
  induction path with
  | bare => rfl
  | call => rfl
  | member mark word later induction => exact induction

theorem Path.height_le_of_unchained {start : Position} {callee whole : Expr}
    {behind : List Token} (path : Path form levels start callee tokens behind whole)
    (covered : Covered form levels) (unchained : whole.UnchainedThroughout) (taken : Nat)
    (named : callee.height ≤ taken + 1) :
    whole.height ≤ taken + levels + 1 := by
  induction path generalizing taken with
  | bare => exact absurd rfl ((unchained _ .here).1 _ _)
  | @call levels start _ _ _ _ callee given opens inner closes =>
      have arguments (argument : Expr) (member : argument ∈ given) : argument.height ≤ levels := by
        rcases inner.inside_arguments argument member with ⟨less, tokens, fits, derived⟩
        have inside := unchained.child (List.mem_cons_of_mem callee member)
        exact Nat.le_trans (covered _ _ _ derived fits inside) fits
      have positive : 0 < levels := by
        cases given with
        | nil => exact absurd rfl ((unchained _ .here).1 start callee)
        | cons first more =>
            exact Nat.lt_of_lt_of_le first.height_pos (arguments first List.mem_cons_self)
      refine height_le_succ_iff.mpr fun child member => ?_
      rcases List.mem_cons.mp member with rfl | argument
      · omega
      · have low := arguments child argument
        omega
  | member mark word later induction =>
      have onward := induction (covered.mono (Nat.le_succ _)) unchained (taken + 1)
        (by rw [height]; omega)
      omega

/-- A primary that is itself a suffix stands in parentheses, and so has a level of its own. -/
theorem Primary.height_le_of_unchained {behind : List Token} {expr : Expr}
    (primary : Primary form levels tokens behind expr) (covered : Covered form levels)
    (unchained : expr.UnchainedThroughout) :
    expr.height ≤ levels + 1 ∧ ∀ owner, expr.owner? = some owner → expr.height ≤ levels := by
  cases primary with
  | literal => exact ⟨Nat.le_add_left 1 _, fun owner found => by cases found⟩
  | name => exact ⟨Nat.le_add_left 1 _, fun owner found => by cases found⟩
  | group opens inside =>
      have low := covered _ _ _ inside (Nat.le_refl _) unchained
      exact ⟨Nat.le_succ_of_le low, fun _ _ => low⟩
  | array opens inside =>
      refine ⟨height_le_succ_iff.mpr fun child member => ?_, fun owner found => by cases found⟩
      exact (covered.mono (Nat.le_succ _)).inside (inside.inside_items child member)
        (unchained.child member)
  | object opens inside =>
      refine ⟨height_le_succ_iff.mpr fun child member => ?_, fun owner found => by cases found⟩
      exact (covered.mono (Nat.le_succ _)).inside (inside.inside_fields child member)
        (unchained.child member)
  | new new word path =>
      have low := path.height_le_of_unchained covered unchained 0 (Nat.le_refl 1)
      rw [Nat.zero_add] at low
      refine ⟨low, fun owner found => ?_⟩
      rw [path.owner?_eq_none] at found
      cases found

/-- A suffix is at most one higher than what it is on, where the levels inside it are covered. -/
theorem height_le_of_link {owner link : Expr} {bound : Nat}
    (covered : ∀ less < levels, Covered form less) (within : UnchainedThroughout link)
    (children : ∀ child ∈ link.children, child = owner ∨ ∃ inner tokens, inner < levels ∧
      form inner tokens child) (height : owner.height ≤ bound) (fits : levels ≤ bound + 1) :
    link.height ≤ bound + 1 := by
  refine height_le_succ_iff.mpr fun child member => ?_
  rcases children child member with rfl | ⟨inner, tokens, fewer, derived⟩
  · exact height
  · have inside := covered inner fewer _ _ _ derived (Nat.le_refl _) (within.child member)
    omega

/-- Three suffixes in a row are one too many for their levels to cover the height. -/
theorem Suffixes.height_le_of_unchained {start whole : Expr} {room : Nat}
    (suffixes : Suffixes form levels start tokens whole)
    (covered : ∀ less < levels, Covered form less) (unchained : whole.UnchainedThroughout)
    (low : start.height ≤ room + 1)
    (grouped : ∀ owner, start.owner? = some owner → start.height ≤ room) :
    whole.height ≤ max room levels + 1 := by
  -- By the number of suffixes: none, one, two, or a third one, which the chains exclude.
  rcases suffixes.first with ⟨rfl, rfl⟩ | ⟨one, _, link, fewer, onStart, linkChildren, later⟩
  · omega
  have linkWithin := unchained.of_occurs later.occurs
  rcases later.first with ⟨rfl, rfl⟩ | ⟨two, _, second, fewest, onLink, secondChildren, last⟩
  · have height : start.height ≤ max room levels := by
      rcases (linkWithin _ .here).2 start onStart with single | ⟨inner, onInner, _⟩
      · omega
      · have inside := grouped inner onInner
        omega
    exact height_le_of_link covered linkWithin linkChildren height (by omega)
  have secondWithin := unchained.of_occurs last.occurs
  have linkHigh := one_lt_height onStart
  have single : start.height = 1 := by
    rcases (secondWithin _ .here).2 link onLink with single | ⟨inner, onInner, single⟩
    · omega
    · rw [onStart] at onInner
      cases onInner
      exact single
  rcases last.first with ⟨rfl, rfl⟩ | ⟨_, _, third, _, onSecond, _, rest⟩
  · have below : start.height ≤ levels - 1 := by omega
    have linkLow := height_le_of_link covered linkWithin linkChildren below (by omega)
    have linkFits : link.height ≤ levels := by omega
    have low : whole.height ≤ levels + 1 := by
      refine height_le_of_link covered secondWithin (fun child member => ?_) linkFits
        (Nat.le_succ _)
      rcases secondChildren child member with equal | ⟨inner, tokens, less, derived⟩
      · exact .inl equal
      · exact .inr ⟨inner, tokens, Nat.lt_trans less fewer, derived⟩
    omega
  · have thirdWithin := unchained.of_occurs rest.occurs
    have secondHigh := one_lt_height onLink
    rcases (thirdWithin _ .here).2 second onSecond with single | ⟨inner, onInner, single⟩
    · omega
    · rw [onLink] at onInner
      cases onInner
      omega

end

theorem Expression.covered (levels : Nat) : Covered Expression levels := by
  induction levels using Nat.strongRecOn with
  | ind levels induction =>
      intro less tokens expr expression fits unchained
      cases expression with
      | @signed inside token tokens sign operand reads inner =>
          have low := induction inside (by omega) _ _ _ inner (Nat.le_refl _)
            (unchained.child List.mem_cons_self)
          rw [height]
          exact Nat.succ_le_succ low
      | @chain first later front back start _ primary suffixes =>
          have startWithin := unchained.of_occurs suffixes.occurs
          rcases primary.height_le_of_unchained (induction first (by omega)) startWithin with
            ⟨low, grouped⟩
          exact suffixes.height_le_of_unchained
            (fun fewer bound => induction fewer (by omega)) unchained low grouped

/-! ## Texts that reach the bound

The argument of `new` is as high as the levels allow, and the same levels then carry a chain
of suffixes behind it. -/

def linkText : Nat → List Char
  | 0 => []
  | count + 1 => " .x".toList ++ linkText count

def linkLexemes : Nat → List Lexeme
  | 0 => []
  | count + 1 => .mark .dot :: .word "x" :: linkLexemes count

def tallText : Nat → List Char
  | 0 => "new x".toList
  | count + 1 => "new x(".toList ++ (tallText count ++ (")".toList ++ linkText (count + 1)))

def tallLexemes : Nat → List Lexeme
  | 0 => [.word "new", .word "x"]
  | count + 1 => .word "new" :: .word "x" :: .mark .parenOpen ::
      (tallLexemes count ++ .mark .parenClose :: linkLexemes (count + 1))

section

open Token

theorem apart_linkText (count : Nat) {rest : List Char} (apart : Apart rest) :
    Apart (linkText count ++ rest) := by
  cases count with
  | zero => exact apart
  | succ count => exact apart_cons (by decide) (by decide) _

theorem spells_linkText (count : Nat) {rest : List Char} (apart : Apart rest) :
    Spells (linkText count) (linkLexemes count) rest := by
  induction count with
  | zero => exact spells_nil rest
  | succ count induction =>
      have name : Spells "x".toList [.word "x"] (linkText count ++ rest) :=
        spells_name (by decide) (by decide) (apart_linkText count apart)
      have blank : Spells [' '] [] (['.'] ++ ("x".toList ++ linkText count) ++ rest) :=
        spells_blanks (List.forall_mem_singleton.mpr rfl) _
      have dot : Spells ['.'] [.mark .dot] ("x".toList ++ linkText count ++ rest) :=
        spells_dot rfl
      exact blank.append (dot.cons (name.cons induction))

theorem spells_new {rest : List Char} (apart : Apart rest) :
    Spells "new x".toList [.word "new", .word "x"] rest := by
  have blank : Spells [' '] [] ("x".toList ++ rest) :=
    spells_blanks (List.forall_mem_singleton.mpr rfl) _
  have name : Spells "x".toList [.word "x"] rest :=
    spells_name (by decide) (by decide) apart
  have new : Spells "new".toList [.word "new"] ([' '] ++ "x".toList ++ rest) :=
    spells_name (by decide) (by decide) (apart_cons (by decide) (by decide) _)
  exact new.cons (blank.append name)

theorem spells_tallText (count : Nat) {rest : List Char} (apart : Apart rest) :
    Spells (tallText count) (tallLexemes count) rest := by
  induction count generalizing rest with
  | zero => exact spells_new apart
  | succ count induction =>
      have noOpen : Mark.parenOpen ≠ .dot := by decide
      have noClose : Mark.parenClose ≠ .dot := by decide
      have links := (spells_mark noClose _).cons (spells_linkText (count + 1) apart)
      have inside := (induction (apart_cons (by decide) (by decide) _)).append links
      have opened := (spells_mark noOpen _).cons inside
      exact (spells_new (apart_cons (by decide) (by decide) _)).append opened

end

theorem exists_suffixes (form : Form Expr) {count : Nat} {tokens : List Token}
    (lexemes : tokens.map (·.lexeme) = linkLexemes count) (owner : Expr) :
    ∃ whole, Suffixes form count owner tokens whole ∧ whole.height = owner.height + count := by
  induction count generalizing tokens owner with
  | zero =>
      cases List.map_eq_nil_iff.mp lexemes
      exact ⟨owner, .nil, rfl⟩
  | succ count induction =>
      rcases List.map_eq_cons_iff.mp lexemes with ⟨dot, behind, rfl, mark, named⟩
      rcases List.map_eq_cons_iff.mp named with ⟨name, rest, rfl, word, links⟩
      rcases induction links (.member dot.position owner "x") with ⟨whole, suffixes, height⟩
      refine ⟨whole, .member mark word suffixes, ?_⟩
      rw [height, Expr.height]
      omega

theorem exists_tall {count : Nat} {tokens : List Token}
    (lexemes : tokens.map (·.lexeme) = tallLexemes count) :
    ∃ expr, Expression (count + 1) tokens expr ∧ expr.height = reach (count + 1) := by
  induction count generalizing tokens with
  | zero =>
      rcases List.map_eq_cons_iff.mp lexemes with ⟨new, behind, rfl, isNew, named⟩
      rcases List.map_eq_singleton_iff.mp named with ⟨name, rfl, word⟩
      refine ⟨.new new.position (.name name.position "x") [], ?_, rfl⟩
      have primary : Primary Expression 0 [new, name] []
          (.new new.position (.name name.position "x") []) :=
        .new isNew word (.bare fun token member => by cases member)
      simpa using Expression.chain primary .nil
  | succ count induction =>
      rcases List.map_eq_cons_iff.mp lexemes with ⟨new, behind, rfl, isNew, named⟩
      rcases List.map_eq_cons_iff.mp named with ⟨name, call, rfl, word, called⟩
      rcases List.map_eq_cons_iff.mp called with ⟨opening, given, rfl, opens, inside⟩
      rcases Reader.map_lexeme_append inside with ⟨inner, back, rfl, argument, closed⟩
      rcases List.map_eq_cons_iff.mp closed with ⟨closing, links, rfl, closes, suffixed⟩
      rcases induction argument with ⟨expr, derived, high⟩
      let start := Expr.new new.position (.name name.position "x") [expr]
      rcases exists_suffixes Expression suffixed start with ⟨whole, suffixes, height⟩
      have positive := expr.height_pos
      have startHeight : start.height = expr.height + 1 := by
        simp only [start, Expr.height, argumentsHeight]
        omega
      refine ⟨whole, ?_, ?_⟩
      · have primary : Primary Expression (count + 1)
            (new :: name :: opening :: (inner ++ [closing])) links start :=
          .new isNew word (.call opens (.last derived) closes)
        have chain := Expression.chain primary suffixes
        rw [Nat.max_self] at chain
        simpa using chain
      · rw [height, startHeight, high, reach_succ (count + 1)]
        omega

end DocShell.Grammar

namespace DocShell.Expr

open Grammar

/-- The limit on levels bounds the height by its triangular number and one, which some text
reaches under every limit. Expressions without chains keep to the limit itself. -/
theorem height_of_parse (limit : Nat) :
    (∀ text expr, parse limit text = .ok (some expr) → expr.height ≤ reach limit) ∧
      (0 < limit → ∃ text expr, parse limit text = .ok (some expr) ∧
        expr.height = reach limit) ∧
      ∀ text expr, parse limit text = .ok (some expr) → expr.UnchainedThroughout →
        expr.height ≤ limit := by
  have derives (text : String) (expr : Expr) (read : parse limit text = .ok (some expr)) :
      ∃ levels ≤ limit, ∃ tokens, Expression levels tokens expr := by
    rw [parse] at read
    split at read
    · rcases program_of_ofTokens read with ⟨levels, fits, program⟩
      cases program with
      | expression leading inner trailing => exact ⟨levels, fits, _, inner⟩
    · cases read
  refine ⟨fun text expr read => ?_, fun positive => ?_, fun text expr read unchained => ?_⟩
  · rcases derives text expr read with ⟨levels, fits, tokens, expression⟩
    exact Nat.le_trans (Expression.bounded levels _ _ _ expression (Nat.le_refl _)) (reach_mono fits)
  · rcases Nat.exists_eq_add_one_of_ne_zero (Nat.ne_of_gt positive) with ⟨count, rfl⟩
    rcases (spells_tallText count Token.apart_nil).scan with ⟨tokens, finish, scanned, lexemes⟩
    rcases exists_tall lexemes with ⟨expr, expression, height⟩
    refine ⟨String.ofList (tallText count), expr, ?_, height⟩
    rw [parse, scanned]
    exact ofTokens_of_expression expression (Nat.le_refl _)
  · rcases derives text expr read with ⟨levels, fits, tokens, expression⟩
    exact Nat.le_trans (Expression.covered levels _ _ _ expression (Nat.le_refl _) unchained) fits

/-- Two suffixes behind a name are a chain whose levels cover its height. -/
theorem height_of_parse_twoSuffixes :
    let expr : Expr := .member ⟨1, 5⟩ (.member ⟨1, 3⟩ (.name ⟨1, 1⟩ "db") "c") "find"
    parse 3 "db.c.find" = .ok (some expr) ∧ expr.UnchainedThroughout ∧ expr.height ≤ 3 := by
  intro expr
  have parsed : parse 3 "db.c.find" = .ok (some expr) := by cbv
  have name : (Expr.name ⟨1, 1⟩ "db").UnchainedThroughout :=
    .of_children ⟨by simp, fun owner found => by cases found⟩ (List.forall_mem_nil _)
  have collection : (Expr.member ⟨1, 3⟩ (.name ⟨1, 1⟩ "db") "c").UnchainedThroughout :=
    .of_children ⟨by simp, fun owner found => .inl (by cases found; rfl)⟩
      (List.forall_mem_singleton.mpr name)
  have unchained : expr.UnchainedThroughout :=
    .of_children ⟨by simp [expr], fun owner found => .inr (by cases found; exact ⟨_, rfl, rfl⟩)⟩
      (List.forall_mem_singleton.mpr collection)
  exact ⟨parsed, unchained, (height_of_parse 3).2.2 _ _ parsed unchained⟩

/-- The group keeps its three suffixes, and the chain behind it begins anew. -/
theorem height_exceeds_limit :
    parse 5 "(db.c.find()).toArray()" = .ok (some
        (.call ⟨1, 22⟩ (.member ⟨1, 14⟩ (.call ⟨1, 11⟩ (.member ⟨1, 6⟩
          (.member ⟨1, 4⟩ (.name ⟨1, 2⟩ "db") "c") "find") []) "toArray") [])) ∧
      5 < (Expr.call ⟨1, 22⟩ (.member ⟨1, 14⟩ (.call ⟨1, 11⟩ (.member ⟨1, 6⟩
        (.member ⟨1, 4⟩ (.name ⟨1, 2⟩ "db") "c") "find") []) "toArray") []).height :=
  ⟨by cbv, by decide⟩

end DocShell.Expr
