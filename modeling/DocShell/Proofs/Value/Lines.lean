import DocShell.Proofs.Value.Unbroken

namespace DocShell

/-! # Lines of printed values

With an indent, the text of a value is a list of lines, each with a depth and with
content behind its spaces. The indent tells how many spaces a level has; which lines
there are, and how deep, depends on the value alone. -/

open Text

structure Line where
  depth : Nat
  content : List Char
deriving DecidableEq

namespace Line

def text (indent : Nat) (line : Line) : List Char :=
  Spacing.spaces (indent * line.depth) ++ line.content

/-- The content is on one line and does not add to the spaces in front of it. -/
structure Clean (line : Line) : Prop where
  unbroken : Unbroken line.content
  start : line.content.head? ≠ some ' '

theorem Clean.length_takeWhile {line : Line} (clean : line.Clean) (indent : Nat) :
    ((line.text indent).takeWhile (· = ' ')).length = indent * line.depth := by
  have spaces : ∀ character ∈ Spacing.spaces (indent * line.depth),
      decide (character = ' ') = true := by
    intro character member
    exact decide_eq_true (List.eq_of_mem_replicate member)
  have leaves : Leaves (· = ' ') line.content := by
    intro character member
    refine decide_eq_false ?_
    rintro rfl
    exact clean.start member
  rw [text, takeWhile_run spaces leaves, Spacing.spaces, List.length_replicate]

theorem Clean.noFeed_text {line : Line} (clean : line.Clean) (indent : Nat) :
    '\n' ∉ line.text indent := by
  intro member
  rcases List.mem_append.mp member with space | inner
  · exact absurd (List.eq_of_mem_replicate space) (by decide)
  · exact (clean.unbroken _ inner).1 rfl

/-! ## Putting lines together -/

def rendered (indent : Nat) (lines : List Line) : List Char :=
  ['\n'].intercalate (lines.map (text indent))

def headed (front : List Char) : List Line → List Line
  | [] => []
  | line :: rest => { line with content := front ++ line.content } :: rest

def ended (mark : Char) : List Line → List Line
  | [] => []
  | [line] => [{ line with content := line.content ++ [mark] }]
  | line :: rest => line :: ended mark rest

def stacked : List (List Line) → List Line
  | [] => []
  | [part] => part
  | part :: rest => ended ',' part ++ stacked rest

/-- Parts between two brackets, each of which has a line of its own. Without parts, the
brackets share one. -/
def bracketed (depth : Nat) (opening closing : Char) (parts : List (List Line)) : List Line :=
  if parts = [] then [⟨depth, [opening, closing]⟩]
  else ⟨depth, [opening]⟩ :: stacked parts ++ [⟨depth, [closing]⟩]

theorem length_headed (front : List Char) (lines : List Line) :
    (headed front lines).length = lines.length := by
  cases lines <;> rfl

theorem length_ended (mark : Char) (lines : List Line) :
    (ended mark lines).length = lines.length := by
  fun_induction ended mark lines with
  | case1 => rfl
  | case2 line => rfl
  | case3 line rest _ induction => rw [List.length_cons, induction, List.length_cons]

theorem length_stacked (parts : List (List Line)) :
    (stacked parts).length = (parts.map List.length).sum := by
  fun_induction stacked parts with
  | case1 => rfl
  | case2 part => simp
  | case3 part rest _ induction =>
      rw [List.length_append, length_ended, induction, List.map_cons, List.sum_cons]

theorem ended_ne_nil {mark : Char} {lines : List Line} (nonempty : lines ≠ []) :
    ended mark lines ≠ [] := by
  rw [← List.length_pos_iff, length_ended]
  exact List.length_pos_iff.mpr nonempty

theorem stacked_ne_nil {part : List Line} (nonempty : part ≠ []) (rest : List (List Line)) :
    stacked (part :: rest) ≠ [] := by
  have first := List.length_pos_iff.mpr nonempty
  rw [← List.length_pos_iff, length_stacked, List.map_cons, List.sum_cons]
  omega

theorem clean_headed {front : List Char} (unbroken : Unbroken front)
    (start : ∃ first rest, front = first :: rest ∧ first ≠ ' ') {lines : List Line}
    (each : ∀ line ∈ lines, line.Clean) : ∀ line ∈ headed front lines, line.Clean := by
  rcases start with ⟨first, rest, rfl, noSpace⟩
  cases lines with
  | nil => exact each
  | cons line later =>
      rw [List.forall_mem_cons] at each
      rw [headed, List.forall_mem_cons]
      exact ⟨⟨unbroken_append unbroken each.1.unbroken, by simpa using noSpace⟩, each.2⟩

theorem clean_ended {mark : Char} (unbroken : Unbroken [mark]) (noSpace : mark ≠ ' ')
    {lines : List Line} (each : ∀ line ∈ lines, line.Clean) :
    ∀ line ∈ ended mark lines, line.Clean := by
  fun_induction ended mark lines with
  | case1 => exact each
  | case2 line =>
      have clean := each line List.mem_cons_self
      rw [List.forall_mem_singleton]
      refine ⟨unbroken_append clean.unbroken unbroken, ?_⟩
      have start := clean.start
      cases content : line.content with
      | nil => simpa using noSpace
      | cons first rest => simpa [content] using start
  | case3 line rest _ induction =>
      rw [List.forall_mem_cons] at each ⊢
      exact ⟨each.1, induction each.2⟩

theorem clean_stacked {parts : List (List Line)}
    (each : ∀ part ∈ parts, ∀ line ∈ part, line.Clean) :
    ∀ line ∈ stacked parts, line.Clean := by
  fun_induction stacked parts with
  | case1 => exact fun _ member => nomatch member
  | case2 part => exact each part List.mem_cons_self
  | case3 part rest _ induction =>
      rw [List.forall_mem_cons] at each
      rw [List.forall_mem_append]
      exact ⟨clean_ended (by decide) (by decide) each.1, induction each.2⟩

theorem clean_bracketed {opening closing : Char} (brackets : Unbroken [opening, closing])
    (noSpace : opening ≠ ' ' ∧ closing ≠ ' ') {parts : List (List Line)}
    (each : ∀ part ∈ parts, ∀ line ∈ part, line.Clean) (depth : Nat) :
    ∀ line ∈ bracketed depth opening closing parts, line.Clean := by
  have alone (mark : Char) (member : mark ∈ [opening, closing]) (noSpace : mark ≠ ' ') :
      Clean ⟨depth, [mark]⟩ := by
    have plain := brackets mark member
    exact ⟨unbroken_cons plain.1 plain.2 unbroken_nil, by simpa using noSpace⟩
  unfold bracketed
  split
  · rw [List.forall_mem_singleton]
    exact ⟨brackets, by simpa using noSpace.1⟩
  · rw [List.cons_append, List.forall_mem_cons, List.forall_mem_append, List.forall_mem_singleton]
    exact ⟨alone opening (by simp) noSpace.1, clean_stacked each,
      alone closing (by simp) noSpace.2⟩

/-! ## The text of lines -/

theorem rendered_singleton (indent : Nat) (line : Line) :
    rendered indent [line] = line.text indent := List.intercalate_singleton

theorem rendered_cons {indent : Nat} (line : Line) {rest : List Line} (nonempty : rest ≠ []) :
    rendered indent (line :: rest) = line.text indent ++ '\n' :: rendered indent rest := by
  rw [rendered, List.map_cons, List.intercalate_cons_of_ne_nil (by simpa using nonempty),
    List.append_assoc]
  rfl

theorem rendered_append {indent : Nat} {front back : List Line} (first : front ≠ [])
    (second : back ≠ []) :
    rendered indent (front ++ back) = rendered indent front ++ '\n' :: rendered indent back := by
  induction front with
  | nil => exact absurd rfl first
  | cons line rest induction =>
      cases rest with
      | nil => rw [List.singleton_append, rendered_cons line second, rendered_singleton]
      | cons next rest =>
          have later := induction (List.cons_ne_nil _ _)
          rw [List.cons_append, rendered_cons line (by simp), later,
            rendered_cons line (List.cons_ne_nil _ _), List.append_assoc, List.cons_append]

theorem rendered_ended (indent : Nat) (mark : Char) {lines : List Line} (nonempty : lines ≠ []) :
    rendered indent (ended mark lines) = rendered indent lines ++ [mark] := by
  fun_induction ended mark lines with
  | case1 => exact absurd rfl nonempty
  | case2 line => rw [rendered_singleton, rendered_singleton, text, text, List.append_assoc]
  | case3 line rest more induction =>
      have inner : rest ≠ [] := fun empty => more empty
      rw [rendered_cons line (ended_ne_nil inner), induction inner, rendered_cons line inner,
        List.append_assoc, List.cons_append]

structure Sets (indent depth : Nat) (lines : List Line) (text : List Char) : Prop where
  start : lines.head?.map (·.depth) = some depth
  equal : rendered indent lines = Spacing.spaces (indent * depth) ++ text

theorem Sets.ne_nil {indent depth : Nat} {lines : List Line} {text : List Char}
    (sets : Sets indent depth lines text) : lines ≠ [] := by
  rintro rfl
  cases sets.start

theorem sets_singleton (indent depth : Nat) (text : List Char) :
    Sets indent depth [⟨depth, text⟩] text :=
  ⟨rfl, rendered_singleton indent _⟩

theorem Sets.headed {indent depth : Nat} {lines : List Line} {text : List Char}
    (sets : Sets indent depth lines text) (front : List Char) :
    Sets indent depth (headed front lines) (front ++ text) := by
  rcases sets with ⟨start, equal⟩
  cases lines with
  | nil => cases start
  | cons line rest =>
      rcases line with ⟨_, content⟩
      cases start
      refine ⟨rfl, ?_⟩
      by_cases last : rest = []
      · subst last
        rw [rendered_singleton] at equal
        have content := List.append_cancel_left equal
        subst content
        exact rendered_singleton indent _
      · rw [rendered_cons _ last, Line.text, List.append_assoc] at equal
        rw [Line.headed, rendered_cons _ last, ← List.append_cancel_left equal]
        simp only [Line.text, List.append_assoc]

/-- Stacked parts set what the texts of the parts make with a new line between each two. -/
theorem rendered_stacked {indent depth : Nat} {parts : List (List Line)}
    {texts : List (List Char)} (each : List.Forall₂ (Sets indent depth) parts texts)
    (nonempty : parts ≠ []) :
    rendered indent (stacked parts) = Spacing.spaces (indent * depth) ++
      joined (',' :: '\n' :: Spacing.spaces (indent * depth)) texts := by
  induction each with
  | nil => exact absurd rfl nonempty
  | cons first later induction =>
      cases later with
      | nil => exact first.equal
      | cons second later =>
          have rest := induction (List.cons_ne_nil _ _)
          have inner := stacked_ne_nil second.ne_nil
          rw [stacked, joined, rendered_append (ended_ne_nil first.ne_nil) (inner _),
            rendered_ended indent ',' first.ne_nil, first.equal, rest]
          · simp only [List.append_assoc, List.cons_append, List.nil_append]
          · exact List.cons_ne_nil _ _
          · exact List.cons_ne_nil _ _

theorem sets_bracketed (opening closing : Char) {indent depth : Nat} {parts : List (List Line)}
    {texts : List (List Char)} (each : List.Forall₂ (Sets indent (depth + 1)) parts texts) :
    Sets indent depth (bracketed depth opening closing parts)
      (enclosed opening closing (.lines indent depth) texts) := by
  cases each with
  | nil => exact sets_singleton indent depth [opening, closing]
  | cons first later =>
      have inner := rendered_stacked (.cons first later) (List.cons_ne_nil _ _)
      have some := stacked_ne_nil first.ne_nil
      rw [bracketed, if_neg (List.cons_ne_nil _ _), enclosed, if_neg (List.cons_ne_nil _ _)]
      refine ⟨rfl, ?_⟩
      rw [List.cons_append, rendered_cons _ (by simp), rendered_append (some _) (by simp), inner,
        rendered_singleton]
      simp only [text, Spacing.lines, List.append_assoc, List.cons_append, List.nil_append]

/-- The closing bracket, too, stands at the depth of the container. -/
theorem depth_getLast?_bracketed (opening closing : Char) (depth : Nat)
    (parts : List (List Line)) :
    (bracketed depth opening closing parts).getLast?.map (·.depth) = some depth := by
  unfold bracketed
  split
  · rfl
  · rw [List.getLast?_concat]
    rfl

end Line

namespace Value

open Line

mutual

/-- The lines of a value at a depth. What is inside a container is one level deeper
than its brackets, and the line of a field begins with its key. -/
def lines (depth : Nat) : Value → List Line
  | .array items => bracketed depth '[' ']' (itemLines (depth + 1) items)
  | .document fields => bracketed depth '{' '}' (fieldLines (depth + 1) fields)
  | value => [⟨depth, value.written 0 0⟩]

def itemLines (depth : Nat) : List Value → List (List Line)
  | [] => []
  | item :: rest =>
      (if item.isAbsent then [⟨depth, "undefined".toList⟩] else lines depth item) ::
        itemLines depth rest

def fieldLines (depth : Nat) : List (String × Value) → List (List Line)
  | [] => []
  | (name, value) :: rest =>
      if value.isAbsent then fieldLines depth rest
      else headed (writtenKey name ++ [':', ' ']) (lines depth value) :: fieldLines depth rest

end

def printed : Value → Nat
  | .array items => items.length
  | .document fields => (fields.filter fun field => !field.2.isAbsent).length
  | _ => 0

mutual

def parts : Value → List Value
  | .array items => .array items :: partsOfItems items
  | .document fields => .document fields :: partsOfFields fields
  | value => [value]

def partsOfItems : List Value → List Value
  | [] => []
  | item :: rest => parts item ++ partsOfItems rest

def partsOfFields : List (String × Value) → List Value
  | [] => []
  | (_, value) :: rest => parts value ++ partsOfFields rest

end

/-- The line breaks that some values account for: one in front of each printed part and
one in front of the closing bracket. -/
def breaks (values : List Value) : Nat :=
  ((values.filter (0 < ·.printed)).map (·.printed + 1)).sum

theorem breaks_append (front back : List Value) :
    breaks (front ++ back) = breaks front + breaks back := by
  simp [breaks]

theorem breaks_cons (value : Value) (rest : List Value) :
    breaks (value :: rest) =
      (if value.printed = 0 then 0 else value.printed + 1) + breaks rest := by
  unfold breaks
  by_cases none : value.printed = 0
  · simp [none]
  · simp [none, Nat.pos_of_ne_zero none]

theorem lines_scalar {value : Value} (scalar : value.isContainer = false) (depth : Nat) :
    value.lines depth = [⟨depth, value.written 0 0⟩] := by
  cases value with
  | array items => cases scalar
  | document fields => cases scalar
  | _ => rfl

theorem parts_scalar {value : Value} (scalar : value.isContainer = false) :
    value.parts = [value] ∧ value.printed = 0 := by
  cases value with
  | array items => cases scalar
  | document fields => cases scalar
  | _ => exact ⟨rfl, rfl⟩

/-- Only containers depend on how they are set. -/
theorem written_scalar {value : Value} (scalar : value.isContainer = false)
    (indent depth : Nat) : value.written indent depth = value.written 0 0 := by
  cases value with
  | array items => cases scalar
  | document fields => cases scalar
  | _ => rfl

/-! ## Setting a value line by line -/

theorem sets_itemLines {indent depth : Nat} {items : List Value}
    (each : ∀ item ∈ items, Sets indent depth (item.lines depth) (item.written indent depth)) :
    List.Forall₂ (Sets indent depth) (itemLines depth items) (writtenItems indent depth items) := by
  induction items with
  | nil => exact .nil
  | cons item rest induction =>
      rw [itemLines, writtenItems]
      refine .cons ?_ (induction fun other member => each other (List.mem_cons_of_mem _ member))
      split
      · exact sets_singleton indent depth _
      · exact each item List.mem_cons_self

theorem sets_fieldLines {indent depth : Nat} {fields : List (String × Value)}
    (each : ∀ field ∈ fields,
      Sets indent depth (field.2.lines depth) (field.2.written indent depth)) :
    List.Forall₂ (Sets indent depth) (fieldLines depth fields)
      (writtenFields indent depth fields) := by
  induction fields with
  | nil => exact .nil
  | cons field rest induction =>
      rcases field with ⟨name, value⟩
      have later := induction fun other member => each other (List.mem_cons_of_mem _ member)
      rw [fieldLines, writtenFields]
      split
      · exact later
      · refine .cons ?_ later
        have inner := (each (name, value) List.mem_cons_self).headed (writtenKey name ++ [':', ' '])
        rwa [List.append_assoc] at inner

theorem sets_lines {indent : Nat} (positive : 0 < indent) (value : Value) (depth : Nat) :
    Sets indent depth (value.lines depth) (value.written indent depth) := by
  induction value using Value.induction generalizing depth with
  | scalar value scalar =>
      rw [lines_scalar scalar, written_scalar scalar indent depth]
      exact sets_singleton indent depth _
  | array items induction =>
      have set := sets_bracketed '[' ']' (sets_itemLines fun item member =>
        induction item member (depth + 1))
      rwa [lines, written, spacing, if_neg (Nat.ne_of_gt positive)]
  | document fields induction =>
      have set := sets_bracketed '{' '}' (sets_fieldLines fun field member =>
        induction field member (depth + 1))
      rwa [lines, written, spacing, if_neg (Nat.ne_of_gt positive)]

/-! ## Counting the lines -/

theorem length_itemLines (depth : Nat) (items : List Value) :
    (itemLines depth items).length = (array items).printed := by
  rw [printed]
  induction items with
  | nil => rfl
  | cons item rest induction => rw [itemLines, List.length_cons, induction, List.length_cons]

theorem length_fieldLines (depth : Nat) (fields : List (String × Value)) :
    (fieldLines depth fields).length = (document fields).printed := by
  rw [printed]
  induction fields with
  | nil => rfl
  | cons field rest induction =>
      rcases field with ⟨name, value⟩
      rw [fieldLines]
      cases absent : value.isAbsent with
      | true => simp [absent, induction]
      | false => simp [absent, induction]

/-- Lines of parts that account for a line each and for the breaks inside them. -/
theorem length_bracketed {opening closing : Char} {depth inside : Nat} {parts : List (List Line)}
    (sum : (parts.map List.length).sum = parts.length + inside) :
    (bracketed depth opening closing parts).length =
      1 + ((if parts.length = 0 then 0 else parts.length + 1) + inside) := by
  cases parts with
  | nil =>
      have none : inside = 0 := by simpa using sum.symm
      rw [none]
      rfl
  | cons part rest =>
      have some : (part :: rest).length ≠ 0 := Nat.succ_ne_zero _
      rw [bracketed, if_neg (List.cons_ne_nil _ _), if_neg some, List.length_append,
        List.length_cons, length_stacked, sum, List.length_singleton]
      omega

theorem sum_itemLines {depth : Nat} {items : List Value}
    (each : ∀ item ∈ items, (item.lines depth).length = 1 + breaks item.parts) :
    ((itemLines depth items).map List.length).sum =
      (itemLines depth items).length + breaks (partsOfItems items) := by
  induction items with
  | nil => rfl
  | cons item rest induction =>
      have later := induction fun other member => each other (List.mem_cons_of_mem _ member)
      have first := each item List.mem_cons_self
      rw [itemLines, partsOfItems, breaks_append, List.map_cons, List.sum_cons, later,
        List.length_cons]
      cases absent : item.isAbsent with
      | true =>
          have none : breaks item.parts = 0 := by rw [eq_absent absent]; rfl
          rw [if_pos rfl, none, List.length_singleton]
          omega
      | false =>
          rw [if_neg Bool.false_ne_true, first]
          omega

theorem sum_fieldLines {depth : Nat} {fields : List (String × Value)}
    (each : ∀ field ∈ fields, (field.2.lines depth).length = 1 + breaks field.2.parts) :
    ((fieldLines depth fields).map List.length).sum =
      (fieldLines depth fields).length + breaks (partsOfFields fields) := by
  induction fields with
  | nil => rfl
  | cons field rest induction =>
      rcases field with ⟨name, value⟩
      have later := induction fun other member => each other (List.mem_cons_of_mem _ member)
      have first : (value.lines depth).length = 1 + breaks value.parts :=
        each (name, value) List.mem_cons_self
      rw [fieldLines, partsOfFields, breaks_append]
      cases absent : value.isAbsent with
      | true =>
          have none : breaks value.parts = 0 := by rw [eq_absent absent]; rfl
          rw [if_pos rfl, none, later, Nat.zero_add]
      | false =>
          rw [if_neg Bool.false_ne_true, List.map_cons, List.sum_cons, later, length_headed, first,
            List.length_cons]
          omega

theorem length_lines (value : Value) (depth : Nat) :
    (value.lines depth).length = 1 + breaks value.parts := by
  induction value using Value.induction generalizing depth with
  | scalar value scalar =>
      rcases parts_scalar scalar with ⟨alone, none⟩
      rw [lines_scalar scalar, alone, breaks_cons, none]
      rfl
  | array items induction =>
      have sum := sum_itemLines fun item member => induction item member (depth + 1)
      rw [lines, length_bracketed sum, length_itemLines, parts, breaks_cons]
  | document fields induction =>
      have sum := sum_fieldLines fun field member => induction field member (depth + 1)
      rw [lines, length_bracketed sum, length_fieldLines, parts, breaks_cons]

/-! ## What the lines hold -/

theorem start_writtenKey (key : String) :
    ∃ first rest, writtenKey key = first :: rest ∧ first ≠ ' ' := by
  unfold writtenKey
  split
  · rename_i bare
    rcases exists_of_isBareKey bare with ⟨first, rest, characters, begins, _⟩
    refine ⟨first, rest, characters, ?_⟩
    rintro rfl
    exact absurd begins (by decide)
  · exact ⟨'"', _, rfl, by decide⟩

theorem start_cons {first : Char} (noSpace : first ≠ ' ') (rest : List Char) :
    (first :: rest).head? ≠ some ' ' := fun equal => noSpace (Option.some.inj equal)

theorem start_minus (negative : Bool) {text : List Char} (start : text.head? ≠ some ' ') :
    (if negative then '-' :: text else text).head? ≠ some ' ' := by
  cases negative with
  | false => exact start
  | true => exact start_cons (by decide) text

theorem start_ofInt (number : Int) : (ofInt number).head? ≠ some ' ' := by
  have digits : (ofNat number.natAbs).head? ≠ some ' ' := by
    intro equal
    have digit := isDigit_of_mem_ofNat (List.mem_of_mem_head? equal)
    cases digit
  have signed := start_minus (number < 0) digits
  simpa [ofInt] using signed

theorem start_shellText (number : Double) : number.shellText.head? ≠ some ' ' := by
  cases number with
  | nan => exact start_cons (by decide : 'N' ≠ ' ') _
  | infinity negative =>
      have word : "Infinity".toList.head? ≠ some ' ' := by decide
      exact start_minus negative word
  | finite negative magnitude =>
      rcases NumberLayout.exists_write_eq magnitude with ⟨digit, rest, equal, isDigit⟩
      have noSpace : digit ≠ ' ' := by
        rintro rfl
        cases isDigit
      exact start_minus _ (equal ▸ start_cons noSpace rest)

theorem start_writtenDate (instant : Int) : (writtenDate instant).head? ≠ some ' ' := by
  unfold writtenDate
  split
  · exact start_cons (by decide : 'I' ≠ ' ') _
  · exact start_cons (by decide : 'D' ≠ ' ') _

theorem start_scalar {value : Value} (scalar : value.isContainer = false) (indent depth : Nat) :
    (value.written indent depth).head? ≠ some ' ' := by
  cases value with
  | absent =>
      intro equal
      cases equal
  | null => exact start_cons (by decide : 'n' ≠ ' ') _
  | bool value =>
      cases value with
      | false => exact start_cons (by decide : 'f' ≠ ' ') _
      | true => exact start_cons (by decide : 't' ≠ ' ') _
  | number value => exact start_shellText value
  | string text => exact start_cons (by decide : '"' ≠ ' ') _
  | objectId identifier => exact start_cons (by decide : 'O' ≠ ' ') _
  | int value => exact start_ofInt value.toInt
  | long digits => exact start_cons (by decide : 'N' ≠ ' ') _
  | decimal digits => exact start_cons (by decide : 'N' ≠ ' ') _
  | double value => exact start_shellText value
  | date instant => exact start_writtenDate instant
  | regex pattern => exact start_cons (by decide : '/' ≠ ' ') _
  | timestamp seconds increment => exact start_cons (by decide : 'T' ≠ ' ') _
  | binary data => exact start_cons (by decide : 'B' ≠ ' ') _
  | array items => cases scalar
  | document fields => cases scalar

theorem clean_itemLines {depth : Nat} {items : List Value}
    (each : ∀ item ∈ items, ∀ line ∈ item.lines depth, line.Clean) :
    ∀ part ∈ itemLines depth items, ∀ line ∈ part, line.Clean := by
  induction items with
  | nil => exact fun _ member => nomatch member
  | cons item rest induction =>
      rw [itemLines, List.forall_mem_cons]
      refine ⟨?_, induction fun other member => each other (List.mem_cons_of_mem _ member)⟩
      split
      · have word : Unbroken "undefined".toList ∧ "undefined".toList.head? ≠ some ' ' := by decide
        rw [List.forall_mem_singleton]
        exact ⟨word.1, word.2⟩
      · exact each item List.mem_cons_self

theorem clean_fieldLines {depth : Nat} {fields : List (String × Value)}
    (each : ∀ field ∈ fields, ∀ line ∈ field.2.lines depth, line.Clean) :
    ∀ part ∈ fieldLines depth fields, ∀ line ∈ part, line.Clean := by
  induction fields with
  | nil => exact fun _ member => nomatch member
  | cons field rest induction =>
      rcases field with ⟨name, value⟩
      have later := induction fun other member => each other (List.mem_cons_of_mem _ member)
      rw [fieldLines]
      split
      · exact later
      · rw [List.forall_mem_cons]
        refine ⟨clean_headed ?_ ?_ (each (name, value) List.mem_cons_self), later⟩
        · exact unbroken_append (unbroken_writtenKey name) (by decide)
        · rcases start_writtenKey name with ⟨first, rest, equal, noSpace⟩
          exact ⟨first, rest ++ [':', ' '], congrArg (· ++ [':', ' ']) equal, noSpace⟩

theorem clean_lines {value : Value} (patterns : value.PatternsIn Pattern.Sound) (depth : Nat) :
    ∀ line ∈ value.lines depth, line.Clean := by
  induction value using Value.induction generalizing depth with
  | scalar value scalar =>
      rw [lines_scalar scalar, List.forall_mem_singleton]
      exact ⟨unbroken_scalar scalar patterns.here 0 0, start_scalar scalar 0 0⟩
  | array items induction =>
      rw [lines]
      refine clean_bracketed (by decide) (by decide) (clean_itemLines ?_) depth
      exact fun item member =>
        induction item member ((everywhere_array.mp patterns).2 item member) (depth + 1)
  | document fields induction =>
      rw [lines]
      refine clean_bracketed (by decide) (by decide) (clean_fieldLines ?_) depth
      exact fun field member =>
        induction field member ((everywhere_document.mp patterns).2 field member) (depth + 1)

theorem depth_getLast?_lines (value : Value) (depth : Nat) :
    (value.lines depth).getLast?.map (·.depth) = some depth := by
  cases scalar : value.isContainer with
  | false =>
      rw [lines_scalar scalar]
      rfl
  | true =>
      cases value with
      | array items => exact depth_getLast?_bracketed _ _ depth _
      | document fields => exact depth_getLast?_bracketed _ _ depth _
      | _ => cases scalar

theorem depth_head?_lines (value : Value) (depth : Nat) :
    (value.lines depth).head?.map (·.depth) = some depth :=
  (sets_lines Nat.one_pos value depth).start

/-- The text of a value breaks only between the lines of its containers, each of which
is set in by its depth. -/
theorem splitOn_shellText {value : Value} (patterns : value.PatternsIn Pattern.Sound) :
    Unbroken (value.shellText 0).toList ∧
      (∀ depth, (value.lines depth).head?.map (·.depth) = some depth ∧
        (value.lines depth).getLast?.map (·.depth) = some depth) ∧
      (value.lines 0).length =
        1 + ((value.parts.filter (0 < ·.printed)).map (·.printed + 1)).sum ∧
      ∀ indent, 0 < indent →
        (value.shellText indent).toList.splitOn '\n' = (value.lines 0).map (Line.text indent) ∧
          ∀ line ∈ value.lines 0,
            ((line.text indent).takeWhile (· = ' ')).length = indent * line.depth := by
  have clean := clean_lines patterns 0
  refine ⟨?_, fun depth => ⟨depth_head?_lines value depth, depth_getLast?_lines value depth⟩,
    length_lines value 0, fun indent positive => ⟨?_, fun line member =>
      (clean line member).length_takeWhile indent⟩⟩
  · rw [shellText, String.toList_ofList]
    exact unbroken_written patterns 0
  · have set := sets_lines positive value 0
    have text : rendered indent (value.lines 0) = value.written indent 0 := set.equal
    have inside : ∀ line ∈ (value.lines 0).map (Line.text indent), '\n' ∉ line := by
      rw [List.forall_mem_map]
      exact fun line member => (clean line member).noFeed_text indent
    rw [shellText, String.toList_ofList, ← text, rendered]
    exact List.splitOn_intercalate '\n' inside (by simpa using set.ne_nil)

theorem splitOn_shellText_omittedField :
    PatternsIn Pattern.Sound (document [("a.b", array [.absent, .regex ⟨"/\n", "i"⟩]),
      ("c", document [("d", .absent)])]) ∧
      ((document [("a.b", array [.absent, .regex ⟨"/\n", "i"⟩]),
        ("c", document [("d", .absent)])]).shellText 2).toList.splitOn '\n' =
        ["\x7b", "  \"a.b\": [", "    undefined,", "    /\\/\\n/i", "  ],", "  c: \x7b\x7d",
          "\x7d"].map String.toList := by
  have sound : Pattern.Sound ⟨"/\n", "i"⟩ :=
    (by decide : Pattern.new? "/\n" "i" = some ⟨"/\n", "i"⟩)
  have patterns : PatternsIn Pattern.Sound (document
      [("a.b", array [.absent, .regex ⟨"/\n", "i"⟩]), ("c", document [("d", .absent)])]) :=
    ⟨trivial, ⟨trivial, trivial, sound, trivial⟩, ⟨trivial, trivial, trivial⟩, trivial⟩
  have split := ((splitOn_shellText patterns).2.2.2 2 (by decide)).1
  exact ⟨patterns, split.trans (by decide)⟩

end Value

end DocShell
