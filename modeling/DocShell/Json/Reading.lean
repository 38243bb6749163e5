import DocShell.Json.Basic
import DocShell.Number.Decimal
import DocShell.Text.Surrogate
import DocShell.Text.Taken

namespace DocShell.Json

/-! # Reading JSON

The strict grammar: four blank characters, no comments, no trailing commas, no
raw control characters and no halves of surrogate pairs in strings. Containers
nest at most 127 deep, and a number beyond the doubles is refused. -/

def depthLimit : Nat := 127

def isBlank (character : Char) : Bool :=
  character = ' ' || character = '\t' || character = '\n' || character = '\r'

def skipBlanks (text : List Char) : List Char := text.dropWhile isBlank

theorem length_skipBlanks_le (text : List Char) : (skipBlanks text).length ≤ text.length :=
  (List.dropWhile_suffix _).length_le

/-! ## Strings -/

def shortEscape? (letter : Char) : Option Char :=
  if letter = '"' ∨ letter = '\\' ∨ letter = '/' then some letter
  else if letter = 'b' then some '\x08'
  else if letter = 'f' then some '\x0c'
  else if letter = 'n' then some '\n'
  else if letter = 'r' then some '\r'
  else if letter = 't' then some '\t'
  else none

def withFirst (character : Char) : Option (List Char × List Char) → Option (List Char × List Char)
  | some (body, rest) => some (character :: body, rest)
  | none => none

def stringBody? : List Char → Option (List Char × List Char)
  | [] => none
  | '"' :: rest => some ([], rest)
  | '\\' :: 'u' :: rest =>
      match Text.hexPrefix? 4 rest with
      | none => none
      | some code =>
          if Text.isHighSurrogate code then
            match _paired : rest.drop 4 with
            | '\\' :: 'u' :: second =>
                match (Text.hexPrefix? 4 second).filter Text.isLowSurrogate with
                | some low =>
                    withFirst (Char.ofNat (Text.pairedCode code low)) (stringBody? (second.drop 4))
                | none => none
            | _ => none
          else if Text.isLowSurrogate code then none
          else withFirst (Char.ofNat code) (stringBody? (rest.drop 4))
  | '\\' :: letter :: rest =>
      match shortEscape? letter with
      | some character => withFirst character (stringBody? rest)
      | none => none
  | character :: rest =>
      if character.toNat < 0x20 then none else withFirst character (stringBody? rest)
termination_by text => text.length
decreasing_by
  · have lengths := congrArg List.length _paired
    simp only [List.length_drop, List.length_cons] at lengths ⊢
    omega
  all_goals simp only [List.length_drop, List.length_cons]; omega

theorem eq_some_of_withFirst {character : Char} {read : Option (List Char × List Char)}
    {body rest : List Char} (extended : withFirst character read = some (body, rest)) :
    ∃ tail, read = some (tail, rest) ∧ body = character :: tail := by
  rcases read with _ | ⟨tail, behind⟩
  · cases extended
  · simp only [withFirst, Option.some.injEq, Prod.mk.injEq] at extended
    exact ⟨tail, by rw [extended.2], extended.1.symm⟩

theorem length_of_stringBody? {text body rest : List Char}
    (read : stringBody? text = some (body, rest)) : rest.length < text.length := by
  fun_induction stringBody? text generalizing body rest <;>
    grind [eq_some_of_withFirst, List.length_drop]

/-! ## Numbers

What no integer holds is rounded to the nearest double. Readers of JSON are assumed to do
so: one that is made for speed may end at a neighbour of the nearest double, and of such a
reader nothing is said here about fractions, exponents and integers beyond 64 bits. -/

def finite? (number : Double) : Option Json :=
  if number.isFinite then some (.float number) else none

/-- A number without fraction and exponent: an integer if 64 bits hold it, signed
or not, and otherwise the nearest double. So is minus zero. -/
def ofDigits? (negative : Bool) (digits : List Char) : Option Json :=
  let size := Text.natOfDigits digits
  if negative ∧ size ≠ 0 ∧ size ≤ 2 ^ 63 then some (.integer (-size))
  else if ¬negative ∧ size < 2 ^ 64 then some (.integer size)
  else finite? (Double.ofDecimal negative size 0)

def opensEmptyExponent (text : List Char) : Bool :=
  (text.head? = some 'e' || text.head? = some 'E') && (Numeral.takeExponent text).isNone

example : opensEmptyExponent ['e', '+', 'x'] = true ∧ opensEmptyExponent ['E', '-', '5'] = false ∧
    opensEmptyExponent [',', 'e'] = false := by decide

/-- The number at the front of a text behind its sign, correctly rounded. A point and an
exponent mark belong to the number, so one without digits spoils it whatever comes next. -/
def unsigned? (negative : Bool) (text : List Char) : Option (Taken Json Char text.length) :=
  let whole := (Numeral.takeDigits text).1
  let behind := (Numeral.takeDigits text).2
  let numeral := (Numeral.takeTail whole behind).1
  let rest := (Numeral.takeTail whole behind).2
  if found : whole ≠ [] then
    have shorter : rest.length < text.length := Numeral.length_takeTail_lt found
    if whole.head? = some '0' ∧ whole ≠ ['0'] then none
    else if behind.head? = some '.' ∧ numeral.fraction = [] then none
    else if opensEmptyExponent (Numeral.takeFraction behind).2 then none
    else
      (if rest = behind then ofDigits? negative whole
        else finite? (numeral.toDouble negative)).map (⟨·, rest, shorter⟩)
  else none

/-! ## Values -/

def scalar? : (text : List Char) → Option (Taken Json Char text.length)
  | 'n' :: 'u' :: 'l' :: 'l' :: rest => some ⟨.null, rest, by simp only [List.length_cons]; omega⟩
  | 't' :: 'r' :: 'u' :: 'e' :: rest =>
      some ⟨.bool true, rest, by simp only [List.length_cons]; omega⟩
  | 'f' :: 'a' :: 'l' :: 's' :: 'e' :: rest =>
      some ⟨.bool false, rest, by simp only [List.length_cons]; omega⟩
  | '"' :: text =>
      match read : stringBody? text with
      | some (body, rest) =>
          some ⟨.string (String.ofList body), rest,
            Nat.lt_succ_of_lt (length_of_stringBody? read)⟩
      | none => none
  | '-' :: text => (unsigned? true text).map (·.widen (Nat.le_succ _))
  | text => unsigned? false text

/-- Items up to the closing bracket, at least one. -/
def items? (read : (text : List Char) → Option (Taken Json Char text.length)) (text : List Char) :
    Option (Taken (List Json) Char text.length) :=
  match read text with
  | none => none
  | some ⟨item, rest, shorter⟩ =>
      match equal : skipBlanks rest with
      | ']' :: behind => some ⟨[item], behind, by grind [length_skipBlanks_le rest]⟩
      | ',' :: behind =>
          have fits : behind.length < text.length := by grind [length_skipBlanks_le rest]
          (items? read behind).map fun more =>
            (more.map (item :: ·)).widen (Nat.le_of_lt fits)
      | _ => none
termination_by text.length

def name? (text : List Char) : Option (Taken String Char text.length) :=
  match equal : skipBlanks text with
  | '"' :: quoted =>
      match read : stringBody? quoted with
      | some (body, rest) =>
          match colon : skipBlanks rest with
          | ':' :: behind =>
              some ⟨String.ofList body, behind, by
                grind [length_skipBlanks_le text, length_skipBlanks_le rest,
                  length_of_stringBody? read]⟩
          | _ => none
      | none => none
  | _ => none

def members? (read : (text : List Char) → Option (Taken Json Char text.length)) (text : List Char) :
    Option (Taken (List (String × Json)) Char text.length) :=
  match name? text with
  | none => none
  | some ⟨name, value, named⟩ =>
      match read value with
      | none => none
      | some ⟨item, rest, shorter⟩ =>
          match equal : skipBlanks rest with
          | '}' :: behind => some ⟨[(name, item)], behind, by grind [length_skipBlanks_le rest]⟩
          | ',' :: behind =>
              have fits : behind.length < text.length := by grind [length_skipBlanks_le rest]
              (members? read behind).map fun more =>
                (more.map ((name, item) :: ·)).widen (Nat.le_of_lt fits)
          | _ => none
termination_by text.length

/-- The value at the front of a text, with room for so many levels of containers.
A member that comes again keeps its place and takes the later value. -/
def value? : (room : Nat) → (text : List Char) → Option (Taken Json Char text.length)
  | room, text =>
      match equal : skipBlanks text with
      | '[' :: inner =>
          match room with
          | 0 => none
          | room + 1 =>
              match closed : skipBlanks inner with
              | ']' :: rest => some ⟨.array [], rest, by
                  grind [length_skipBlanks_le text, length_skipBlanks_le inner]⟩
              | _ => (items? (value? room) inner).map fun taken =>
                  (taken.map .array).widen (by grind [length_skipBlanks_le text])
      | '{' :: inner =>
          match room with
          | 0 => none
          | room + 1 =>
              match closed : skipBlanks inner with
              | '}' :: rest => some ⟨.object [], rest, by
                  grind [length_skipBlanks_le text, length_skipBlanks_le inner]⟩
              | _ => (members? (value? room) inner).map fun taken =>
                  (taken.map fun pairs => .object (Fields.ofPairs pairs)).widen
                    (by grind [length_skipBlanks_le text])
      | start => (scalar? start).map (·.widen (by grind [length_skipBlanks_le text]))

def front? (text : String) : Option (Json × List Char) :=
  (value? depthLimit text.toList).map fun taken => (taken.item, taken.rest)

def parse? (text : String) : Option Json :=
  match front? text with
  | some (json, rest) => if skipBlanks rest = [] then some json else none
  | none => none

end DocShell.Json
