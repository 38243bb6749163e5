import DocShell.Evaluation.Constructor
import DocShell.Proofs.Calendar.Instant
import DocShell.Proofs.Failure.Bind
import DocShell.Proofs.Value.Decoded

namespace DocShell

/-! # What calls can build

Every call that succeeds has arguments, and its value is typed: it is no container,
needs no change to become plain, and takes at most four levels as it is written. -/

structure Value.Built (value : Value) : Prop where
  scalar : value.isContainer = false
  present : value.isAbsent = false
  read : value.ReadHere
  unchanged : value.plain = value
  need : value.need ≤ 4

theorem Double.natAbs_le_of_truncatedWithin? {number : Double} {limit : Nat} {whole : Int}
    (found : number.truncatedWithin? limit = some whole) : whole.natAbs ≤ limit := by
  cases number with
  | nan => cases found
  | infinity negative => cases found
  | finite negative magnitude =>
      rw [truncatedWithin?] at found
      split at found
      · rename_i within
        have quotient : magnitude.units / Magnitude.unitsPerOne ≤ limit :=
          Nat.div_le_of_le_mul (Nat.mul_comm limit _ ▸ within)
        cases found
        generalize number : magnitude.units / Magnitude.unitsPerOne = count at quotient
        rw [truncated, number]
        cases negative with
        | false => exact quotient
        | true =>
            rw [if_pos rfl, Int.natAbs_neg]
            exact quotient
      · cases found

namespace Constructor

open Value

variable {argument other : Argument} {value : Value}

theorem natAbs_le_of_instant? {instant : Int} (read : value.ReadHere)
    (found : instant? value = some instant) : instant.natAbs ≤ Calendar.instantLimit := by
  cases value with
  | string text => exact Calendar.natAbs_le_of_read? found
  | number number => exact Double.natAbs_le_of_truncatedWithin? found
  | long digits =>
      rw [instant?] at found
      split at found
      · cases found
        assumption
      · cases found
  | date instant =>
      cases found
      exact read
  | _ => cases found

theorem built_of_buildObjectId (built : buildObjectId argument = .ok value) : value.Built := by
  unfold buildObjectId at built
  split at built
  · split at built
    · cases built
      exact ⟨rfl, rfl, trivial, rfl, callNeed_one_le⟩
    · cases built
  · cases built

theorem built_of_buildDate {who : String} (read : argument.value.ReadHere)
    (built : buildDate who argument = .ok value) : value.Built := by
  unfold buildDate at built
  split at built
  · cases built
  · split at built
    · rename_i instant found
      cases built
      exact ⟨rfl, rfl, natAbs_le_of_instant? read found, rfl, dateNeed_le instant⟩
    · cases built

theorem built_of_buildDecimal (built : buildDecimal argument = .ok value) : value.Built := by
  rcases bind_eq_ok.mp built with ⟨text, _, made⟩
  split at made
  · cases made
    exact ⟨rfl, rfl, trivial, rfl, callNeed_one_le⟩
  · cases made
  · cases made

theorem built_of_buildInt (built : buildInt argument = .ok value) : value.Built := by
  unfold buildInt at built
  extract_lets number? at built
  split at built
  · cases built
    exact ⟨rfl, rfl, trivial, rfl, Nat.le_trans (signNeed_le _) (by decide)⟩
  · cases built

theorem built_of_longOfNumber {number : Double} (built : longOfNumber argument number = .ok value) :
    value.Built := by
  unfold longOfNumber at built
  split at built
  · cases built
  split at built
  · cases built
  split at built
  · split at built
    · cases built
      exact ⟨rfl, rfl, trivial, rfl, callNeed_one_le⟩
    · cases built
  · cases built

theorem built_of_buildLong (built : buildLong argument = .ok value) : value.Built := by
  unfold buildLong at built
  split at built
  · split at built
    · cases built
      exact ⟨rfl, rfl, trivial, rfl, callNeed_one_le⟩
    · cases built
    · cases built
  · exact built_of_longOfNumber built
  · cases built
    exact ⟨rfl, rfl, trivial, rfl, callNeed_one_le⟩
  · cases built

theorem built_of_buildTimestamp (built : buildTimestamp argument other = .ok value) :
    value.Built := by
  rcases bind_eq_ok.mp built with ⟨seconds, _, rest⟩
  rcases bind_pure_eq_ok.mp rest with ⟨increment, _, rfl⟩
  exact ⟨rfl, rfl, trivial, rfl, callNeed_one_le⟩

theorem built_of_buildBinary (built : buildBinary argument other = .ok value) : value.Built := by
  unfold buildBinary at built
  split at built
  · cases built
  · split at built
    · split at built
      · cases built
        exact ⟨rfl, rfl, trivial, rfl, callNeed_one_le⟩
      · cases built
    · cases built

theorem build_nil (constructor : Constructor) (call : Position) :
    (constructor.build call []).toOption = none := by
  cases constructor <;> rfl

/-- What a call builds of arguments that were read. -/
theorem built_of_build {constructor : Constructor} {call : Position} {arguments : List Argument}
    (read : ∀ argument ∈ arguments, argument.value.ReadHere)
    (built : constructor.build call arguments = .ok value) : value.Built := by
  have first : ((arguments[0]?).getD (Argument.mk .absent call none)).value.ReadHere := by
    cases arguments with
    | nil => exact trivial
    | cons argument rest => exact read argument List.mem_cons_self
  cases constructor with
  | objectId => exact built_of_buildObjectId built
  | date => exact built_of_buildDate first built
  | isoDate => exact built_of_buildDate first built
  | decimal => exact built_of_buildDecimal built
  | int => exact built_of_buildInt built
  | long => exact built_of_buildLong built
  | timestamp => exact built_of_buildTimestamp built
  | binary => exact built_of_buildBinary built

end Constructor

end DocShell
