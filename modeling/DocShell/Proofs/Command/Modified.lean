import DocShell.Proofs.Command.Accepted

namespace DocShell.Command

/-! # Searches with modifiers

The modifiers behind a search write one after the other, so that the last one to write a field
decides its value. A field that the search had keeps its place, and every other one stands where
its first modifier put it. -/

/-! ## The fields -/

theorem names_of_writes {modifiers : List (Called Modifier)} {writes : List (String × Value)}
    (accepted : List.Forall₂ Writes modifiers writes) :
    Fields.names writes = modifiers.map fun called => called.method.field := by
  induction accepted with
  | nil => rfl
  | cons write _ induction =>
      rcases write with ⟨evaluated, takes⟩
      exact congrArg (_ :: ·) induction

/-- No modifier writes what a search is about. -/
theorem not_mem_names_writes {modifiers : List (Called Modifier)} {writes : List (String × Value)}
    (accepted : List.Forall₂ Writes modifiers writes) {name : String}
    (subject : name = "find" ∨ name = "filter") : name ∉ Fields.names writes := by
  have others (modifier : Modifier) : modifier.field ≠ name := by
    rcases subject with rfl | rfl <;> cases modifier <;> decide
  rw [names_of_writes accepted]
  intro member
  rcases List.mem_map.mp member with ⟨called, _, equal⟩
  exact others called.method equal

/-! ## The search -/

def Chain.Reads (chain : Chain) (limit : Nat) (text : String) : Prop :=
  ∃ expr, Expr.parse limit text = .ok (some expr) ∧ Link.ofExpr [] expr = .ok chain.links

theorem Chain.Reads.ofShell_eq {chain : Chain} {limit : Nat} {text : String}
    (reads : chain.Reads limit text) (findLimit : Int) :
    ofShell limit findLimit text = ofLinks findLimit chain.links := by
  rcases reads with ⟨expr, read, linked⟩
  simp only [ofShell, read, linked, bind, Except.bind]

/-- A text that is a search, with accepted calls of modifiers on its cursor and maybe one more at
the end. -/
structure Search where
  limit : Nat
  text : String
  chain : Chain
  filter : Option (Fields Value)
  projection : Option (Fields Value)
  writes : List (String × Value)
  wrapping : Wrapping
  reads : chain.Reads limit text
  isSearch : chain.operation.method = .find ∨ chain.operation.method = .findOne
  asks : Asks chain.operation.given filter projection
  accepted : List.Forall₂ Writes chain.calls.modifiers writes
  ends : Ends chain.calls.terminal wrapping

namespace Search

def collection (search : Search) : String := ".".intercalate search.chain.collection

def base (search : Search) (findLimit : Int) : Fields Value :=
  searchFields search.collection (searchLimit findLimit search.chain.operation.method)
    search.filter search.projection

def places (search : Search) : List String :=
  "find" :: (search.filter.map fun _ => "filter").toList ++
    "limit" :: (search.projection.map fun _ => "projection").toList

theorem names_base (search : Search) (findLimit : Int) :
    Fields.names (search.base findLimit) = search.places := by
  rw [base, places]
  cases search.filter <;> cases search.projection <;> rfl

theorem get?_find_base (search : Search) (findLimit : Int) :
    Fields.get? "find" (search.base findLimit) = some (.string search.collection) := rfl

theorem get?_filter_base (search : Search) (findLimit : Int) :
    Fields.get? "filter" (search.base findLimit) = search.filter.map .document := by
  rw [base]
  cases search.filter <;> cases search.projection <;> rfl

def modified (search : Search) (findLimit : Int) : Fields Value :=
  search.writes.foldl (fun fields write => Fields.insert write.1 write.2 fields)
    (search.base findLimit)

theorem ofShell_eq (search : Search) (findLimit : Int) :
    ofShell search.limit findLimit search.text =
      .ok (search.wrapping.around (search.modified findLimit)) := by
  rw [search.reads.ofShell_eq, ofLinks_links, bind_eq_ok]
  exact ⟨_, (begin_search_eq_ok_iff search.isSearch).mpr ⟨_, _, search.asks, rfl⟩,
    finish_calls_eq_ok_iff.mpr ⟨_, _, search.accepted, search.ends, rfl⟩⟩

/-- A chain that begins with a search is a command just if all of its calls are accepted. -/
theorem exists_iff {findLimit : Int} {limit : Nat} {text : String} {chain : Chain}
    (reads : chain.Reads limit text)
    (isSearch : chain.operation.method = .find ∨ chain.operation.method = .findOne) :
    (∃ search : Search, search.limit = limit ∧ search.text = text ∧ search.chain = chain) ↔
      ∃ made, ofShell limit findLimit text = .ok made := by
  constructor
  · rintro ⟨search, rfl, rfl, _⟩
    exact ⟨_, search.ofShell_eq findLimit⟩
  · rintro ⟨made, found⟩
    rw [reads.ofShell_eq, ofLinks_links, bind_eq_ok] at found
    rcases found with ⟨state, started, finished⟩
    rcases (begin_search_eq_ok_iff isSearch).mp started with ⟨filter, projection, asks, rfl⟩
    rcases finish_calls_eq_ok_iff.mp finished with ⟨writes, wrapping, accepted, ends, rfl⟩
    exact ⟨⟨limit, text, chain, filter, projection, writes, wrapping, reads, isSearch, asks,
      accepted, ends⟩, rfl, rfl, rfl⟩

/-- Two searches for the same, with two neighbours among their modifiers in the other order. -/
structure Swapped (left right : Search) : Prop where
  collection : left.collection = right.collection
  operation : left.chain.operation.method = right.chain.operation.method
  filter : left.filter = right.filter
  projection : left.projection = right.projection
  neighbours : ∃ before first second after, first.1 ≠ second.1 ∧
    left.writes = before ++ first :: second :: after ∧
    right.writes = before ++ second :: first :: after

theorem Swapped.get?_modified {left right : Search} (swapped : Swapped left right)
    (findLimit : Int) (name : String) :
    Fields.get? name (left.modified findLimit) = Fields.get? name (right.modified findLimit) := by
  have same : left.base findLimit = right.base findLimit := by
    rw [base, base, swapped.collection, swapped.operation, swapped.filter, swapped.projection]
  rcases swapped.neighbours with ⟨before, first, second, after, different, former, latter⟩
  rw [modified, modified, Fields.get?_foldl_insert, Fields.get?_foldl_insert, same, former, latter,
    Fields.get?_reverse_swap different]

theorem get?_of_subject (search : Search) (findLimit : Int) {name : String}
    (subject : name = "find" ∨ name = "filter") :
    Fields.get? name (search.modified findLimit) = Fields.get? name (search.base findLimit) := by
  have unwritten : name ∉ Fields.names search.writes.reverse := by
    rw [Fields.names, List.map_reverse, List.mem_reverse]
    exact not_mem_names_writes search.accepted subject
  rw [modified, Fields.get?_foldl_insert, Fields.get?_eq_none unwritten, Option.none_or]

/-- A search whose calls are accepted is a command, in which the last modifier to write a field
decides its value and the first one its place. -/
theorem ofShell_lastWritten (findLimit : Int) :
    (∀ (limit : Nat) (text : String) (chain : Chain), chain.Reads limit text →
      chain.operation.method = .find ∨ chain.operation.method = .findOne →
        ((∃ search : Search, search.limit = limit ∧ search.text = text ∧ search.chain = chain) ↔
          ∃ made, ofShell limit findLimit text = .ok made)) ∧
    ∀ search : Search, ∃ fields,
      ofShell search.limit findLimit search.text = .ok (search.wrapping.around fields) ∧
      Fields.names fields = search.places ++
        ((search.chain.calls.modifiers.map fun called => called.method.field).filter
          (· ∉ search.places)).eraseDups ∧
      (∀ name, Fields.get? name fields =
        (Fields.get? name search.writes.reverse).or
          (Fields.get? name (search.base findLimit))) ∧
      Fields.get? "find" fields = some (.string search.collection) ∧
      Fields.get? "filter" fields = search.filter.map .document ∧
      ∀ other : Search, Swapped search other → ∃ same,
        ofShell other.limit findLimit other.text = .ok (other.wrapping.around same) ∧
          ∀ name, Fields.get? name same = Fields.get? name fields := by
  refine ⟨fun limit text chain => exists_iff, fun search => ?_⟩
  refine ⟨search.modified findLimit, search.ofShell_eq findLimit, ?_, fun name => ?_, ?_, ?_,
    fun other swapped => ⟨other.modified findLimit, other.ofShell_eq findLimit, fun name => ?_⟩⟩
  · rw [modified, Fields.names_foldl_insert, names_base, names_of_writes search.accepted]
  · rw [modified, Fields.get?_foldl_insert]
  · rw [search.get?_of_subject findLimit (.inl rfl), get?_find_base]
  · rw [search.get?_of_subject findLimit (.inr rfl), get?_filter_base]
  · exact (swapped.get?_modified findLimit name).symm

/-! ### Two orders -/

set_option maxRecDepth 2000 in
theorem parse_sortedFirst : Expr.parse 12 "db.c.find(null,{}).sort({}).hint(\"i\")" = .ok (some
    (.call ⟨1, 33⟩ (.member ⟨1, 28⟩ (.call ⟨1, 24⟩ (.member ⟨1, 19⟩ (.call ⟨1, 10⟩
      (.member ⟨1, 5⟩ (.member ⟨1, 3⟩ (.name ⟨1, 1⟩ "db") "c") "find")
      [.literal ⟨1, 11⟩ .null, .object ⟨1, 16⟩ []]) "sort") [.object ⟨1, 25⟩ []]) "hint")
      [.literal ⟨1, 34⟩ (.string "i")])) := by cbv

set_option maxRecDepth 2000 in
theorem parse_hintedFirst : Expr.parse 12 "db.c.find(null,{}).hint(\"i\").sort({})" = .ok (some
    (.call ⟨1, 34⟩ (.member ⟨1, 29⟩ (.call ⟨1, 24⟩ (.member ⟨1, 19⟩ (.call ⟨1, 10⟩
      (.member ⟨1, 5⟩ (.member ⟨1, 3⟩ (.name ⟨1, 1⟩ "db") "c") "find")
      [.literal ⟨1, 11⟩ .null, .object ⟨1, 16⟩ []]) "hint") [.literal ⟨1, 25⟩ (.string "i")])
      "sort") [.object ⟨1, 35⟩ []])) := by cbv

def findAll : Called Operation :=
  ⟨.find, [.literal ⟨1, 11⟩ .null, .object ⟨1, 16⟩ []], ⟨1, 10⟩⟩

def sortedFirst : Search where
  limit := 12
  text := "db.c.find(null,{}).sort({}).hint(\"i\")"
  chain := ⟨["c"], findAll, ⟨[⟨.sort, [.object ⟨1, 25⟩ []], ⟨1, 24⟩⟩,
    ⟨.hint, [.literal ⟨1, 34⟩ (.string "i")], ⟨1, 33⟩⟩], none⟩, by decide, .inl rfl⟩
  filter := none
  projection := some []
  writes := [("sort", .document []), ("hint", .string "i")]
  wrapping := .bare
  reads := ⟨_, parse_sortedFirst, rfl⟩
  isSearch := .inl rfl
  asks := .projection rfl .null rfl (.document [])
  accepted := .cons (.argument rfl ⟨[], rfl⟩) (.cons (.argument rfl trivial) .nil)
  ends := .cursor

def hintedFirst : Search where
  limit := 12
  text := "db.c.find(null,{}).hint(\"i\").sort({})"
  chain := ⟨["c"], findAll, ⟨[⟨.hint, [.literal ⟨1, 25⟩ (.string "i")], ⟨1, 24⟩⟩,
    ⟨.sort, [.object ⟨1, 35⟩ []], ⟨1, 34⟩⟩], none⟩, by decide, .inl rfl⟩
  filter := none
  projection := some []
  writes := [("hint", .string "i"), ("sort", .document [])]
  wrapping := .bare
  reads := ⟨_, parse_hintedFirst, rfl⟩
  isSearch := .inl rfl
  asks := .projection rfl .null rfl (.document [])
  accepted := .cons (.argument rfl trivial) (.cons (.argument rfl ⟨[], rfl⟩) .nil)
  ends := .cursor

theorem ofShell_lastWritten_sortedFirst :
    ∃ fields same, ofShell 12 10 sortedFirst.text = .ok fields ∧
      ofShell 12 10 hintedFirst.text = .ok same ∧
      (∀ name, Fields.get? name same = Fields.get? name fields) ∧
      ∃ search : Search, search.limit = 12 ∧ search.text = sortedFirst.text ∧
        search.chain = sortedFirst.chain := by
  have swapped : Swapped sortedFirst hintedFirst :=
    ⟨rfl, rfl, rfl, rfl, [], ("sort", .document []), ("hint", .string "i"), [], by decide, rfl, rfl⟩
  rcases (ofShell_lastWritten 10).2 sortedFirst with ⟨fields, found, _, _, _, _, swap⟩
  rcases swap hintedFirst swapped with ⟨same, other, equal⟩
  have accepted := ((ofShell_lastWritten 10).1 12 sortedFirst.text sortedFirst.chain
    sortedFirst.reads (.inl rfl)).mpr ⟨fields, found⟩
  exact ⟨fields, same, found, other, equal, accepted⟩

end Search

end DocShell.Command
