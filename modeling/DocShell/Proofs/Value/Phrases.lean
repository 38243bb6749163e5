import DocShell.Evaluation.Meaning
import DocShell.Proofs.Evaluation.Constructor
import DocShell.Proofs.Expr.Phrase
import DocShell.Proofs.Number.Whole
import DocShell.Proofs.Value.Lexemes

namespace DocShell

/-! # Written values as phrases

The lexemes of a value read as an expression that denotes the value again, and take
just the levels of the value. -/

open Reader (Phrase)

/-- An expression whose value, before it is made plain, is the given one. -/
def Expr.Means (value : Value) (expr : Expr) : Prop :=
  ∃ meaning, expr.meaning = .ok meaning ∧ meaning.value = value

namespace Reader

theorem Phrase.Readable.imp {phrase : Phrase Expr} (readable : phrase.Readable)
    {means : Expr → Prop} (implies : ∀ expr, phrase.means expr → means expr) :
    Phrase.Readable ⟨phrase.lexemes, phrase.need, means⟩ := by
  intro context room
  have reads := readable context room
  exact ⟨reads.starts, fun tokens rest lexemes settled =>
    (reads.yields tokens rest lexemes settled).imp implies⟩

end Reader

namespace Value

open Reader

/-! ## Literals and names -/

theorem readable_literal (literal : Literal) {lexeme : Lexeme} {value : Value}
    (noStop : lexeme ∉ stops) (noSign : sign? lexeme = none)
    (reads : ∀ context group nested construct token rest, token.lexeme = lexeme →
      outcome (primary context group nested construct (token :: rest)) =
        .ok (.literal token.position literal, rest))
    (valued : ∀ position, Expr.literalValue position literal = .ok value) :
    Phrase.Readable ⟨[lexeme], 1, Expr.Means value⟩ := by
  refine (readable_token (.literal · literal) noStop noSign reads).imp fun expr read => ?_
  rcases read with ⟨position, rfl⟩
  refine ⟨.data value, ?_, rfl⟩
  rw [Expr.meaning, valued]
  rfl

theorem readable_keyword {label : String} {literal : Literal} {value : Value}
    (keyword : keyword? label = some literal)
    (valued : ∀ position, Expr.literalValue position literal = .ok value) :
    Phrase.Readable ⟨[.word label], 1, Expr.Means value⟩ := by
  refine readable_literal literal (by simp [stops]) rfl (fun _ _ _ _ token rest equal => ?_) valued
  rw [outcome_primary, equal]
  simp only [keyword]

theorem readable_string (text : String) :
    Phrase.Readable ⟨[.string text], 1, Expr.Means (.string text)⟩ := by
  refine readable_literal (.string text) (by simp [stops]) rfl (fun _ _ _ _ token rest equal => ?_)
    fun _ => rfl
  rw [outcome_primary, equal]

theorem readable_number (literal : NumberLiteral) :
    Phrase.Readable ⟨[.number literal], 1, Expr.Means (.number literal.value)⟩ := by
  refine readable_literal (.number literal) (by simp [stops]) rfl
    (fun _ _ _ _ token rest equal => ?_) fun _ => rfl
  rw [outcome_primary, equal]

theorem readable_regex {source options : String} {pattern : Pattern}
    (accepted : Pattern.new? source options = some pattern) :
    Phrase.Readable ⟨[.regex source options], 1, Expr.Means (.regex pattern)⟩ := by
  refine readable_literal (.regex source options) (by simp [stops]) rfl
    (fun _ _ _ _ token rest equal => ?_) fun _ => ?_
  · rw [outcome_primary, equal]
  · rw [Expr.literalValue, accepted]

theorem readable_name (label : String) {meaning : Meaning} (noKeyword : keyword? label = none)
    (noNew : label ≠ "new") (found : Meaning.ofName? label = some meaning) :
    Phrase.Readable ⟨[.word label], 1, Expr.Means meaning.value⟩ := by
  have token : Phrase.Readable ⟨[.word label], 1, fun expr =>
      ∃ position, expr = .name position label⟩ := by
    refine readable_token (.name · label) (by simp [stops]) rfl fun _ _ _ _ token rest equal => ?_
    rw [outcome_primary, equal]
    simp only [noKeyword, noNew, if_false]
  refine token.imp fun expr read => ?_
  rcases read with ⟨position, rfl⟩
  refine ⟨meaning, ?_, rfl⟩
  rw [Expr.meaning, found]

/-! ## Numbers -/

/-- A number behind a minus sign, if it has one. -/
theorem readable_signed (negative : Bool) {lexemes : List Lexeme} {number : Double}
    (readable : Phrase.Readable ⟨lexemes, 1, Expr.Means (.number number)⟩) :
    Phrase.Readable ⟨signLexemes negative ++ lexemes, signNeed negative,
      Expr.Means (.number (if negative then number.neg else number))⟩ := by
  cases negative with
  | false => exact readable
  | true =>
      refine (readable.signed .minus).imp fun expr read => ?_
      rcases read with ⟨position, operand, rfl, meaning, equal, value⟩
      refine ⟨.data (.number number.neg), ?_, rfl⟩
      rw [Expr.meaning, equal]
      change (Expr.signedValue position .minus meaning.value).bind _ = _
      rw [value]
      rfl

theorem readable_whole (whole : Nat) :
    Phrase.Readable ⟨[wholeLexeme whole], 1, Expr.Means (.number (Double.ofInt whole))⟩ :=
  readable_number _

theorem readable_integer (number : Int) :
    Phrase.Readable ⟨integerLexemes number, signNeed (number < 0),
      Expr.Means (.number (Double.ofInt number))⟩ := by
  have signed := readable_signed (number < 0) (readable_whole number.natAbs)
  have value : (if decide (number < 0) then (Double.ofInt number.natAbs).neg
      else Double.ofInt number.natAbs) = Double.ofInt number := by
    by_cases negative : number < 0
    · rw [if_pos (decide_eq_true negative), Double.neg_ofInt negative]
    · rw [decide_eq_false negative, if_neg (by decide)]
      congr 1
      omega
  rwa [value] at signed

theorem readable_double (number : Double) :
    Phrase.Readable ⟨numberLexemes number, numberNeed number, fun expr =>
      ∃ read, Expr.Means (.number read) expr ∧ (Value.number read).plain = normalNumber number⟩ := by
  cases number with
  | nan =>
      have name : Phrase.Readable ⟨[.word "NaN"], 1, Expr.Means (.number .nan)⟩ :=
        readable_name "NaN" rfl (by decide) rfl
      exact name.imp fun expr read => ⟨_, read, rfl⟩
  | infinity negative =>
      have name : Phrase.Readable ⟨[.word "Infinity"], 1, Expr.Means (.number (.infinity false))⟩ :=
        readable_name "Infinity" rfl (by decide) rfl
      refine (readable_signed negative name).imp fun expr read => ⟨_, read, ?_⟩
      cases negative <;> rfl
  | finite negative magnitude =>
      have whole : Phrase.Readable
          ⟨[magnitudeLexeme magnitude], 1, Expr.Means (.number (.finite false magnitude))⟩ :=
        readable_number _
      refine (readable_signed (negative && magnitude.units ≠ 0) whole).imp fun expr read =>
        ⟨_, read, ?_⟩
      rw [normalNumber]
      cases negative && decide (magnitude.units ≠ 0) <;> rfl

/-! ## Calls -/

theorem argumentValues_cons {value : Value} {expr : Expr} {rest : List Expr}
    {arguments : List Argument} (means : Expr.Means value expr)
    (later : Expr.argumentValues rest = .ok arguments) :
    Expr.argumentValues (expr :: rest) =
      .ok (⟨value, expr.position, expr.numberSpelling?⟩ :: arguments) := by
  rcases means with ⟨meaning, equal, rfl⟩
  rw [Expr.argumentValues, equal, later]
  rfl

section

variable (builder : Constructor) {label : String} (noKeyword : keyword? label = none)
  (noNew : label ≠ "new") (found : Meaning.ofName? label = some (.constructor builder))
  {value first second : Value}

include noKeyword noNew found

theorem readable_build (phrases : List (Phrase Expr))
    (readable : ∀ phrase ∈ phrases, phrase.Readable)
    (built : ∀ exprs, MeanEach phrases exprs → ∀ position, ∃ arguments,
      Expr.argumentValues exprs = .ok arguments ∧ builder.build position arguments = .ok value) :
    Phrase.Readable ⟨callLexemes label (phrases.map (·.lexemes)), callNeed (deepest phrases),
      Expr.Means value⟩ := by
  refine (readable_call noKeyword noNew readable).imp fun expr read => ?_
  rcases read with ⟨position, start, exprs, rfl, each⟩
  rcases built exprs each position with ⟨arguments, evaluated, equal⟩
  refine ⟨.data value, ?_, rfl⟩
  rw [Expr.meaning, Expr.meaning, found, evaluated]
  change (builder.build position arguments).bind _ = _
  rw [equal]
  rfl

/-- A call with one argument, of which only the value matters. -/
theorem readable_build_one {lexemes : List Lexeme} {need : Nat}
    (readable : Phrase.Readable ⟨lexemes, need, Expr.Means first⟩)
    (built : ∀ position place spelling,
      builder.build position [⟨first, place, spelling⟩] = .ok value) :
    Phrase.Readable ⟨callLexemes label [lexemes], callNeed need, Expr.Means value⟩ := by
  have levels : deepest [(⟨lexemes, need, Expr.Means first⟩ : Phrase Expr)] = need :=
    Nat.max_zero need
  rw [← levels]
  refine readable_build builder noKeyword noNew found [⟨lexemes, need, Expr.Means first⟩]
    (fun phrase member => List.mem_singleton.mp member ▸ readable) fun exprs each position => ?_
  rcases each with _ | ⟨means, _ | _⟩
  exact ⟨_, argumentValues_cons means rfl, built _ _ _⟩

/-- A call with two arguments that take one level. -/
theorem readable_build_two {lexemes others : List Lexeme}
    (readable : Phrase.Readable ⟨lexemes, 1, Expr.Means first⟩)
    (other : Phrase.Readable ⟨others, 1, Expr.Means second⟩)
    (built : ∀ position place otherPlace spelling otherSpelling,
      builder.build position
        [⟨first, place, spelling⟩, ⟨second, otherPlace, otherSpelling⟩] = .ok value) :
    Phrase.Readable ⟨callLexemes label [lexemes, others], callNeed 1, Expr.Means value⟩ := by
  refine readable_build builder noKeyword noNew found
    [⟨lexemes, 1, Expr.Means first⟩, ⟨others, 1, Expr.Means second⟩]
    (fun phrase member => ?_) fun exprs each position => ?_
  · rcases List.mem_cons.mp member with rfl | last
    · exact readable
    · exact List.mem_singleton.mp last ▸ other
  · rcases each with _ | ⟨means, _ | ⟨otherMeans, _ | _⟩⟩
    exact ⟨_, argumentValues_cons means (argumentValues_cons otherMeans rfl), built _ _ _ _ _⟩

end

/-! ### The constructors that are written -/

theorem readable_objectId (identifier : ObjectId) :
    Phrase.Readable ⟨callLexemes "ObjectId" [[.string identifier.hex]], callNeed 1,
      Expr.Means (.objectId identifier)⟩ :=
  readable_build_one .objectId rfl (by decide) rfl (readable_string _) fun _ _ _ =>
    Constructor.build_objectId _ _ _ identifier

theorem readable_long (digits : LongText) :
    Phrase.Readable ⟨callLexemes "NumberLong" [[.string digits.text]], callNeed 1,
      Expr.Means (.long digits)⟩ :=
  readable_build_one .long rfl (by decide) rfl (readable_string _) fun _ _ _ =>
    Constructor.build_long _ _ _ digits

theorem readable_decimal (digits : DecimalText) :
    Phrase.Readable ⟨callLexemes "NumberDecimal" [[.string digits.text]], callNeed 1,
      Expr.Means (.decimal digits)⟩ :=
  readable_build_one .decimal rfl (by decide) rfl (readable_string _) fun _ _ _ =>
    Constructor.build_decimal _ _ _ digits

theorem readable_date {instant : Int} (bound : instant.natAbs ≤ Calendar.instantLimit) :
    Phrase.Readable ⟨dateLexemes instant, dateNeed instant, Expr.Means (.date instant)⟩ := by
  cases written : Calendar.write? instant with
  | none =>
      simp only [dateLexemes, dateNeed, written]
      have number := Double.truncatedWithin?_ofInt bound (by decide)
      have argument := readable_integer instant
      generalize Double.ofInt instant = double at number argument
      exact readable_build_one .date rfl (by decide) rfl argument fun _ _ _ =>
        Constructor.build_date _ _ _ (.inl rfl) rfl number
  | some text =>
      simp only [dateLexemes, dateNeed, written]
      have read := Calendar.read?_of_write? written
      rw [← String.toList_ofList (l := text)] at read
      exact readable_build_one .isoDate rfl (by decide) rfl (readable_string _) fun _ _ _ =>
        Constructor.build_date _ _ _ (.inr rfl) rfl read

theorem natBelow?_ofInt {bound whole : Nat} (small : whole < bound)
    (exact : bound ≤ Double.exactLimit) :
    Constructor.natBelow? bound (.number (Double.ofInt whole)) = some whole := by
  have within : (whole : Int).natAbs ≤ Double.exactLimit := by
    rw [Int.natAbs_natCast]
    exact Nat.le_trans (Nat.le_of_lt small) exact
  exact Constructor.natBelow?_number small (Double.toInt?_ofInt within)

theorem readable_timestamp (seconds increment : UInt32) :
    Phrase.Readable ⟨callLexemes "Timestamp"
      [[wholeLexeme seconds.toNat], [wholeLexeme increment.toNat]], callNeed 1,
      Expr.Means (.timestamp seconds increment)⟩ := by
  have exact : 2 ^ 32 ≤ Double.exactLimit := by decide
  have first := natBelow?_ofInt seconds.toNat_lt exact
  have second := natBelow?_ofInt increment.toNat_lt exact
  have firstArgument := readable_whole seconds.toNat
  have secondArgument := readable_whole increment.toNat
  generalize Double.ofInt seconds.toNat = firstDouble at first firstArgument
  generalize Double.ofInt increment.toNat = secondDouble at second secondArgument
  have built := fun call place other spelling otherSpelling =>
    Constructor.build_timestamp call place other spelling otherSpelling first second
  rw [UInt32.ofNat_toNat, UInt32.ofNat_toNat] at built
  exact readable_build_two .timestamp rfl (by decide) rfl firstArgument secondArgument built

theorem readable_binary (data : Binary) :
    Phrase.Readable ⟨callLexemes "BinData"
      [[wholeLexeme data.subtype.toNat], [.string data.base64]], callNeed 1,
      Expr.Means (.binary data)⟩ := by
  have first := natBelow?_ofInt data.subtype.toNat_lt (by decide)
  have argument := readable_whole data.subtype.toNat
  generalize Double.ofInt data.subtype.toNat = double at first argument
  exact readable_build_two .binary rfl (by decide) rfl argument (readable_string _)
    fun _ _ _ _ _ => Constructor.build_binary _ _ _ _ _ data first

end Value

end DocShell
