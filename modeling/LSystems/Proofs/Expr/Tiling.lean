import LSystems.Proofs.Expr.Scanning
import Mathlib.Data.Nat.Find

/-!
# Texts as tokens and blanks

Each token is what its own part of the text says and as long as it can be, and what is
left over is blank. A text is refused where a token ought to start and none does: what
has the form of a token there stands for nothing, or nothing there has such a form. Main
statement: `Token.scan_iff_tiles`.
-/

namespace LSystems

/-! ## Operators -/

namespace Operator

variable {operator : Operator}

theorem ofChar?_eq_some_iff {character : Char} :
    ofChar? character = some operator ↔ operator.symbol.toList = [character] := by
  constructor
  · intro found
    unfold ofChar? at found
    split at found <;> cases found <;> rfl
  · intro isSymbol
    cases operator <;> cases isSymbol <;> rfl

theorem ofChars?_eq_some_iff {first second : Char} :
    ofChars? first second = some operator ↔ operator.symbol.toList = [first, second] := by
  constructor
  · intro found
    unfold ofChars? at found
    split at found <;> cases found <;> rfl
  · intro isSymbol
    cases operator <;> cases isSymbol <;> rfl

theorem exists_symbol_eq (operator : Operator) :
    (∃ character, operator.symbol.toList = [character]) ∨
      ∃ first second, operator.symbol.toList = [first, second] := by
  cases operator <;> first
    | exact .inl ⟨_, rfl⟩
    | exact .inr ⟨_, _, rfl⟩

end Operator

namespace Token

/-! ## Forms of tokens -/

inductive IsMark (row : List Char) : Prop
  | opening (isOpening : row = ['('])
  | closing (isClosing : row = [')'])
  | operator (operator : Operator) (isSymbol : row = operator.symbol.toList)

def IsRun (row : List Char) : Prop :=
  row ≠ [] ∧ ∀ character ∈ row, inNumber character = true

/-- The row has the form of a token, whether it stands for one or not. -/
inductive IsLexeme (row : List Char) : Prop
  | mark (isMark : IsMark row)
  | run (isRun : IsRun row)
  | name (isName : Text.isName row = true)

/-- The row is as much of the start of the text as can be one token. -/
structure Longest (row text : List Char) : Prop where
  isLexeme : IsLexeme row
  isPrefix : row <+: text
  length_le : ∀ other, IsLexeme other → other <+: text → other.length ≤ row.length

/-- What a row says by itself. -/
def Denotes (declared : List String) (row : List Char) : TokenKind → Prop
  | .operator operator => row = operator.symbol.toList
  | .opening => row = ['(']
  | .closing => row = [')']
  | .number value => IsRun row ∧ Numeral.float? (String.ofList row) = some value
  | .name name => row = name.toList ∧ Text.isName row = true ∧ name ∈ declared

/-- The row at the start of the text is no token: it is a name that is not declared, or
a run of digits and points that is no number, or a character that no token starts with.
-/
def Misfit (declared : List String) (text row : List Char) : Fault → Prop
  | .unknownName name =>
    Longest row text ∧ Text.isName row = true ∧ row = name.toList ∧ name ∉ declared
  | .malformedNumber quoted =>
    Longest row text ∧ IsRun row ∧ row = quoted.toList ∧ Numeral.float? quoted = none
  | .unknownOperator character =>
    row = [character] ∧ row <+: text ∧ Text.isBlank character = false ∧
      ∀ other, IsLexeme other → ¬ other <+: text
  | _ => False

variable {declared : List String} {row text tail : List Char} {head : Char}

/-! ### Characters of tokens -/

theorem IsMark.of_cons (isMark : IsMark (head :: tail)) :
    inNumber head = false ∧ Text.startsName head = false := by
  cases isMark with
  | opening isOpening =>
      cases isOpening
      decide +kernel
  | closing isClosing =>
      cases isClosing
      decide +kernel
  | operator operator isSymbol =>
      rcases exists_mark?_symbol operator with ⟨_, _, same, _, notNumber, notName, _⟩
      cases isSymbol.trans same
      exact ⟨notNumber, notName⟩

theorem IsLexeme.nonempty (isLexeme : IsLexeme row) : row ≠ [] := by
  rintro rfl
  rcases isLexeme with (_ | _ | ⟨operator, isSymbol⟩) | isRun | isName
  · contradiction
  · contradiction
  · cases operator <;> contradiction
  · exact isRun.1 rfl
  · contradiction

theorem IsLexeme.isBlank (isLexeme : IsLexeme row) :
    ∀ character ∈ row, Text.isBlank character = false := by
  have ofSymbol (operator : Operator) :
      operator.symbol.toList.all (!Text.isBlank ·) = true := by
    cases operator <;> decide
  intro character member
  rcases isLexeme with (rfl | rfl | ⟨operator, rfl⟩) | isRun | isName
  · cases List.mem_singleton.mp member
    decide
  · cases List.mem_singleton.mp member
    decide
  · simpa using List.all_eq_true.mp (ofSymbol operator) character member
  · exact isBlank_of_inNumber (isRun.2 character member)
  · exact Text.isBlank_of_continuesName
      (Text.continuesName_of_mem isName character member)

/-! ### Longest forms -/

theorem Longest.pos (longest : Longest row text) : 0 < row.length :=
  List.length_pos_iff.mpr longest.isLexeme.nonempty

theorem Longest.exists_cons (longest : Longest row (head :: tail)) :
    ∃ rest, row = head :: rest := by
  rcases List.exists_cons_of_ne_nil longest.isLexeme.nonempty with ⟨leading, rest, rfl⟩
  cases (List.cons_prefix_cons.mp longest.isPrefix).1
  exact ⟨rest, rfl⟩

theorem Longest.unique {other : List Char} (longest : Longest row text)
    (alsoLongest : Longest other text) : row = other :=
  (List.prefix_of_prefix_length_le longest.isPrefix alsoLongest.isPrefix
    (alsoLongest.length_le row longest.isLexeme longest.isPrefix)).eq_of_length_le
    (longest.length_le other alsoLongest.isLexeme alsoLongest.isPrefix)

theorem exists_longest (isLexeme : IsLexeme row) (isPrefix : row <+: text) :
    ∃ longest, Longest longest text := by
  classical
  let starts (length : Nat) : Prop := IsLexeme (text.take length)
  have ofPrefix {other : List Char} (isLexeme : IsLexeme other)
      (isPrefix : other <+: text) :
      starts other.length := by
    change IsLexeme (text.take other.length)
    rwa [← List.prefix_iff_eq_take.mp isPrefix]
  have found : starts (Nat.findGreatest starts text.length) :=
    Nat.findGreatest_spec isPrefix.length_le (ofPrefix isLexeme isPrefix)
  refine ⟨_, found, List.take_prefix .., fun other isLexeme isPrefix => ?_⟩
  rw [List.length_take]
  apply Nat.le_min.mpr
  exact ⟨Nat.le_findGreatest isPrefix.length_le (ofPrefix isLexeme isPrefix),
    isPrefix.length_le⟩

theorem Longest.eq_takeWhile {inside : Char → Bool} (longest : Longest row text)
    (all : ∀ character ∈ row, inside character = true)
    (isLexeme : IsLexeme (text.takeWhile inside)) : row = text.takeWhile inside := by
  have further : row <+: text.takeWhile inside := by
    rcases longest.isPrefix with ⟨back, rfl⟩
    rw [List.takeWhile_append_of_pos all]
    exact List.prefix_append ..
  exact further.eq_of_length_le
    (longest.length_le _ isLexeme (List.takeWhile_prefix inside))

theorem isRun_takeWhile (starts : inNumber head = true) :
    IsRun ((head :: tail).takeWhile inNumber) := by
  refine ⟨?_, fun _ => List.mem_takeWhile_imp⟩
  rw [List.takeWhile_cons_of_pos starts]
  exact List.cons_ne_nil _ _

theorem isName_takeWhile (starts : Text.startsName head = true) :
    Text.isName ((head :: tail).takeWhile Text.continuesName) = true := by
  rw [List.takeWhile_cons_of_pos (Text.continuesName_of_startsName starts),
    Text.isName, starts]
  exact List.all_takeWhile

theorem Longest.eq_run (longest : Longest row (head :: tail)) (isRun : IsRun row) :
    inNumber head = true ∧ row = (head :: tail).takeWhile inNumber := by
  have starts : inNumber head = true := by
    rcases longest.exists_cons with ⟨rest, rfl⟩
    exact isRun.2 head (List.mem_cons_self ..)
  exact ⟨starts, longest.eq_takeWhile isRun.2 (.run (isRun_takeWhile starts))⟩

theorem Longest.eq_name (longest : Longest row (head :: tail))
    (isName : Text.isName row = true) :
    Text.startsName head = true ∧ row = (head :: tail).takeWhile Text.continuesName := by
  have starts : Text.startsName head = true := by
    rcases longest.exists_cons with ⟨rest, rfl⟩
    rw [Text.isName, Bool.and_eq_true] at isName
    exact isName.1
  exact ⟨starts, longest.eq_takeWhile (Text.continuesName_of_mem isName)
    (.name (isName_takeWhile starts))⟩

theorem Longest.isBlank_head (longest : Longest row (head :: tail)) :
    Text.isBlank head = false := by
  rcases longest.exists_cons with ⟨rest, rfl⟩
  exact longest.isLexeme.isBlank head (List.mem_cons_self ..)

theorem Misfit.isBlank_head {fault : Fault}
    (misfit : Misfit declared (head :: tail) row fault) :
    Text.isBlank head = false := by
  cases fault with
  | unknownName => exact misfit.1.isBlank_head
  | malformedNumber => exact misfit.1.isBlank_head
  | unknownOperator character =>
      rcases misfit with ⟨rfl, isPrefix, notBlank, _⟩
      cases (List.cons_prefix_cons.mp isPrefix).1
      exact notBlank
  | _ => contradiction

/-! ## Marks -/

theorem head?_bind_ofChars?_eq_none
    (absent : ∀ operator : Operator, ∀ second, operator.symbol.toList = [head, second] →
      ¬ [head, second] <+: head :: tail) :
    tail.head?.bind (Operator.ofChars? head) = none := by
  cases tail with
  | nil => rfl
  | cons second rest =>
      cases found : Operator.ofChars? head second with
      | none => exact found
      | some operator =>
          have isPrefix : [head, second] <+: head :: second :: rest := ⟨rest, rfl⟩
          exact absurd isPrefix
            (absent operator second (Operator.ofChars?_eq_some_iff.mp found))

theorem mark?_of_longest {operator : Operator}
    (longest : Longest operator.symbol.toList (head :: tail)) :
    mark? head tail = some (.operator operator, operator.symbol.toList.length) := by
  rcases operator.exists_symbol_eq with ⟨leading, isSymbol⟩ | ⟨leading, second, isSymbol⟩
  · have isPrefix := longest.isPrefix
    rw [isSymbol] at isPrefix
    cases (List.cons_prefix_cons.mp isPrefix).1
    have single : tail.head?.bind (Operator.ofChars? head) = none := by
      apply head?_bind_ofChars?_eq_none
      intro other second isOther isPrefix
      have le := longest.length_le _ (.mark (.operator other isOther.symm)) isPrefix
      rw [isSymbol] at le
      exact absurd le (Nat.not_succ_le_self 1)
    rw [mark?, single, Operator.ofChar?_eq_some_iff.mpr isSymbol, isSymbol]
    rfl
  · have isPrefix := longest.isPrefix
    rw [isSymbol] at isPrefix
    rcases List.cons_prefix_cons.mp isPrefix with ⟨rfl, rest, rfl⟩
    have pair := Operator.ofChars?_eq_some_iff.mpr isSymbol
    simp only [mark?, List.singleton_append, List.head?_cons, Option.bind_some,
      pair, isSymbol]
    rfl

theorem mark?_eq_none (absent : ∀ row, IsMark row → ¬ row <+: head :: tail) :
    mark? head tail = none := by
  have noPair : tail.head?.bind (Operator.ofChars? head) = none := by
    apply head?_bind_ofChars?_eq_none
    intro operator second isSymbol
    exact absent _ (.operator operator isSymbol.symm)
  have single : [head] <+: head :: tail := ⟨tail, rfl⟩
  have noOperator : Operator.ofChar? head = none := by
    cases found : Operator.ofChar? head with
    | none => rfl
    | some operator =>
        have isSymbol := Operator.ofChar?_eq_some_iff.mp found
        exact absurd single (absent _ (.operator operator isSymbol.symm))
  have notOpening : head ≠ '(' := by
    rintro rfl
    exact absent _ (.opening rfl) single
  have notClosing : head ≠ ')' := by
    rintro rfl
    exact absent _ (.closing rfl) single
  rw [mark?, noPair, noOperator]
  simp only [notOpening, notClosing, if_false]

/-! ## First tokens -/

theorem float?_of_isRun (isRun : IsRun row) :
    Numeral.float? (String.ofList row) = (Numeral.ofDigits? row).map Numeral.toFloat :=
  Numeral.float?_ofList fun character member => by
    simpa [inNumber] using isRun.2 character member

theorem first_of_denotes {kind : TokenKind} (longest : Longest row (head :: tail))
    (denotes : Denotes declared row kind) :
    Token.first declared head tail = (.ok kind, row.length) := by
  have ofMark (isMark : IsMark row) (marks : mark? head tail = some (kind, row.length)) :
      Token.first declared head tail = (.ok kind, row.length) := by
    rcases longest.exists_cons with ⟨rest, rfl⟩
    exact first_of_mark isMark.of_cons.1 isMark.of_cons.2 marks
  cases kind with
  | operator operator =>
      cases (denotes : row = _)
      exact ofMark (.operator operator rfl) (mark?_of_longest longest)
  | opening =>
      cases (denotes : row = _)
      cases (List.cons_prefix_cons.mp longest.isPrefix).1
      exact ofMark (.opening rfl) (mark?_of_ofChars?_eq_none (fun _ => rfl) tail)
  | closing =>
      cases (denotes : row = _)
      cases (List.cons_prefix_cons.mp longest.isPrefix).1
      exact ofMark (.closing rfl) (mark?_of_ofChars?_eq_none (fun _ => rfl) tail)
  | number value =>
      rcases denotes with ⟨isRun, isValue⟩
      rcases longest.eq_run isRun with ⟨starts, isRow⟩
      rw [float?_of_isRun isRun] at isValue
      rcases Option.map_eq_some_iff.mp isValue with ⟨numeral, isNumeral, rfl⟩
      simp only [Token.first, starts, if_true, ← isRow, isNumeral]
  | name name =>
      rcases denotes with ⟨rfl, isName, known⟩
      rcases longest.eq_name isName with ⟨starts, isRow⟩
      simp only [Token.first, inNumber_of_startsName starts, Bool.false_eq_true,
        if_false, starts, if_true, ← isRow, String.ofList_toList, known]

theorem first_of_misfit {fault : Fault}
    (misfit : Misfit declared (head :: tail) row fault) :
    Token.first declared head tail = (.error fault, row.length) := by
  cases fault with
  | unknownName name =>
      rcases misfit with ⟨longest, isName, rfl, unknown⟩
      rcases longest.eq_name isName with ⟨starts, isRow⟩
      simp only [Token.first, inNumber_of_startsName starts, Bool.false_eq_true,
        if_false, starts, if_true, ← isRow, String.ofList_toList, unknown]
  | malformedNumber quoted =>
      rcases misfit with ⟨longest, isRun, rfl, isNone⟩
      rcases longest.eq_run isRun with ⟨starts, isRow⟩
      have noNumeral : Numeral.ofDigits? quoted.toList = none := by
        rwa [← String.ofList_toList (s := quoted), float?_of_isRun isRun,
          Option.map_eq_none_iff] at isNone
      simp only [Token.first, starts, if_true, ← isRow, noNumeral, String.ofList_toList]
  | unknownOperator character =>
      rcases misfit with ⟨rfl, isPrefix, _, absent⟩
      cases (List.cons_prefix_cons.mp isPrefix).1
      have notNumber : inNumber head = false := Bool.eq_false_iff.mpr fun starts =>
        absent _ (.run (isRun_takeWhile starts)) (List.takeWhile_prefix inNumber)
      have notName : Text.startsName head = false := Bool.eq_false_iff.mpr fun starts =>
        absent _ (.name (isName_takeWhile starts))
          (List.takeWhile_prefix Text.continuesName)
      have noMark : mark? head tail = none :=
        mark?_eq_none fun other isMark => absent other (.mark isMark)
      simp only [Token.first, notNumber, notName, Bool.false_eq_true, if_false, noMark]
      rfl
  | _ => contradiction

theorem exists_denotes_or_misfit (declared : List String) (tail : List Char)
    (notBlank : Text.isBlank head = false) :
    (∃ row kind, Longest row (head :: tail) ∧ Denotes declared row kind) ∨
      ∃ row fault, Misfit declared (head :: tail) row fault := by
  by_cases starts : ∃ row, IsLexeme row ∧ row <+: head :: tail
  · rcases starts with ⟨row, isLexeme, isPrefix⟩
    rcases exists_longest isLexeme isPrefix with ⟨row, longest⟩
    rcases longest.isLexeme with
      (isOpening | isClosing | ⟨operator, isSymbol⟩) | isRun | isName
    · exact .inl ⟨row, .opening, longest, isOpening⟩
    · exact .inl ⟨row, .closing, longest, isClosing⟩
    · exact .inl ⟨row, .operator operator, longest, isSymbol⟩
    · cases isNumber : Numeral.float? (String.ofList row) with
      | some value => exact .inl ⟨row, .number value, longest, isRun, isNumber⟩
      | none =>
          exact .inr ⟨row, .malformedNumber (String.ofList row), longest, isRun,
            String.toList_ofList.symm, isNumber⟩
    · by_cases known : String.ofList row ∈ declared
      · exact .inl ⟨row, .name (String.ofList row), longest, String.toList_ofList.symm,
          isName, known⟩
      · exact .inr ⟨row, .unknownName (String.ofList row), longest, isName,
          String.toList_ofList.symm, known⟩
  · refine .inr ⟨[head], .unknownOperator head, rfl, ⟨tail, rfl⟩, notBlank, ?_⟩
    exact fun other isLexeme isPrefix => starts ⟨other, isLexeme, isPrefix⟩

theorem first_eq_ok_iff {kind : TokenKind} {length : Nat}
    (notBlank : Text.isBlank head = false) :
    Token.first declared head tail = (.ok kind, length) ↔
      ∃ row, Longest row (head :: tail) ∧ Denotes declared row kind ∧
        row.length = length := by
  constructor
  · intro isFirst
    rcases exists_denotes_or_misfit declared tail notBlank with
      ⟨row, found, longest, denotes⟩ | ⟨row, fault, misfit⟩
    · rw [first_of_denotes longest denotes] at isFirst
      cases isFirst
      exact ⟨row, longest, denotes, rfl⟩
    · rw [first_of_misfit misfit] at isFirst
      cases isFirst
  · rintro ⟨row, longest, denotes, rfl⟩
    exact first_of_denotes longest denotes

theorem first_eq_error_iff {fault : Fault} {length : Nat}
    (notBlank : Text.isBlank head = false) :
    Token.first declared head tail = (.error fault, length) ↔
      ∃ row, Misfit declared (head :: tail) row fault ∧ row.length = length := by
  constructor
  · intro isFirst
    rcases exists_denotes_or_misfit declared tail notBlank with
      ⟨row, found, longest, denotes⟩ | ⟨row, fault, misfit⟩
    · rw [first_of_denotes longest denotes] at isFirst
      cases isFirst
    · rw [first_of_misfit misfit] at isFirst
      cases isFirst
      exact ⟨row, misfit, rfl⟩
  · rintro ⟨row, misfit, rfl⟩
    exact first_of_misfit misfit

/-! ## Tilings -/

/-- The tokens lie behind one another in the text from a position on. Each is what its
part of the text says and as long as it can be, and the characters that no token reaches
over are the blanks. -/
structure Tiles (declared : List String) (text : List Char) (start : Nat)
    (tokens : List Token) : Prop where
  ordered : tokens.Pairwise fun earlier later => earlier.span.stop ≤ later.span.offset
  inside : ∀ token ∈ tokens,
    start ≤ token.span.offset ∧ 0 < token.span.length ∧ token.span.stop ≤ text.length
  isBlank_iff : ∀ position character, start ≤ position →
    text[position]? = some character →
    (Text.isBlank character = true ↔ ∀ token ∈ tokens, ¬ token.span.Covers position)
  denotes : ∀ token ∈ tokens, Denotes declared (token.span.slice text) token.kind
  longest :
    ∀ token ∈ tokens, Longest (token.span.slice text) (text.drop token.span.offset)

/-- Tokens and blanks lead from one position of the text to another. -/
inductive Leads (declared : List String) (text : List Char) : Nat → Nat → Prop
  | here {position} : Leads declared text position position
  | blank {start position character} : text[start]? = some character →
      Text.isBlank character = true → Leads declared text (start + 1) position →
      Leads declared text start position
  | token {start position row kind} :
      Longest row (text.drop start) → Denotes declared row kind →
      Leads declared text (start + row.length) position →
        Leads declared text start position

/-- The error is about something that is no token, at a position that blanks and tokens
lead to. -/
def Fails (declared : List String) (text : List Char) (start : Nat)
    (error : Error) : Prop :=
  ∃ position row fault, Leads declared text start position ∧
    Misfit declared (text.drop position) row fault ∧
    error = .unreadable fault ⟨position, row.length⟩

section Steps

variable {start length : Nat} {kind : TokenKind} {fault : Fault}
    {tokens behind : List Token}
  {error : Error}

theorem getElem?_of_drop_eq (rest : text.drop start = head :: tail) :
    text[start]? = some head := by
  rw [← List.head?_drop, rest, List.head?_cons]

theorem drop_behind_of_drop_eq (rest : text.drop start = head :: tail)
    (nonempty : 0 < length) :
    text.drop (start + length) = tail.drop (length - 1) := by
  rw [← List.drop_drop, rest, List.drop_cons nonempty]

/-! ### The end of the text -/

theorem tiles_end_iff (atEnd : text.drop start = []) :
    Tiles declared text start tokens ↔ tokens = [] := by
  rw [List.drop_eq_nil_iff] at atEnd
  constructor
  · intro tiles
    cases tokens with
    | nil => rfl
    | cons token rest =>
        rcases tiles.inside token (List.mem_cons_self ..) with ⟨later, nonempty, inside⟩
        rw [Span.stop] at inside
        omega
  · rintro rfl
    refine ⟨.nil, List.forall_mem_nil _, fun position character later found => ?_,
      List.forall_mem_nil _, List.forall_mem_nil _⟩
    have inside := (List.getElem?_eq_some_iff.mp found).1
    omega

theorem not_fails_end (atEnd : text.drop start = []) :
    ¬ Fails declared text start error := by
  rintro ⟨position, row, fault, leads, misfit, _⟩
  cases leads with
  | here =>
      rw [atEnd] at misfit
      cases fault with
      | unknownName =>
          exact misfit.1.isLexeme.nonempty (List.prefix_nil.mp misfit.1.isPrefix)
      | malformedNumber =>
          exact misfit.1.isLexeme.nonempty (List.prefix_nil.mp misfit.1.isPrefix)
      | unknownOperator =>
          rcases misfit with ⟨rfl, isPrefix, _⟩
          exact List.cons_ne_nil _ _ (List.prefix_nil.mp isPrefix)
      | _ => contradiction
  | blank found =>
      rw [← List.head?_drop, atEnd] at found
      contradiction
  | token longest =>
      rw [atEnd] at longest
      exact longest.isLexeme.nonempty (List.prefix_nil.mp longest.isPrefix)

/-! ### Blanks -/

theorem tiles_blank_iff (rest : text.drop start = head :: tail)
    (isBlank : Text.isBlank head = true) :
    Tiles declared text start tokens ↔ Tiles declared text (start + 1) tokens := by
  have found := getElem?_of_drop_eq rest
  constructor
  · intro tiles
    refine ⟨tiles.ordered, fun token member => ?_, fun position character later =>
      tiles.isBlank_iff position character (Nat.le_of_succ_le later), tiles.denotes,
      tiles.longest⟩
    rcases tiles.inside token member with ⟨later, nonempty, inside⟩
    have uncovered :=
      (tiles.isBlank_iff start head (Nat.le_refl start) found).mp isBlank token member
    simp only [Span.Covers, Span.stop] at uncovered inside ⊢
    omega
  · intro tiles
    refine ⟨tiles.ordered, fun token member => ?_, ?_, tiles.denotes, tiles.longest⟩
    · exact (tiles.inside token member).imp_left Nat.le_of_succ_le
    · intro position character later isCharacter
      rcases Nat.eq_or_lt_of_le later with rfl | later
      · cases found.symm.trans isCharacter
        refine iff_of_true isBlank fun token member covers => ?_
        exact absurd covers.1 (Nat.not_le_of_lt (tiles.inside token member).1)
      · exact tiles.isBlank_iff position character later isCharacter

theorem fails_blank_iff (rest : text.drop start = head :: tail)
    (isBlank : Text.isBlank head = true) :
    Fails declared text start error ↔ Fails declared text (start + 1) error := by
  constructor
  · rintro ⟨position, row, fault, leads, misfit, isError⟩
    cases leads with
    | here =>
        rw [rest] at misfit
        exact nomatch isBlank.symm.trans misfit.isBlank_head
    | blank _ _ leads => exact ⟨position, row, fault, leads, misfit, isError⟩
    | token longest =>
        rw [rest] at longest
        exact nomatch isBlank.symm.trans longest.isBlank_head
  · rintro ⟨position, row, fault, leads, misfit, isError⟩
    exact ⟨position, row, fault, .blank (getElem?_of_drop_eq rest) isBlank leads,
      misfit, isError⟩

/-! ### Tokens -/

theorem Longest.mem_of_getElem? (longest : Longest row (text.drop start)) {position : Nat}
    {character : Char} (later : start ≤ position) (inside : position < start + row.length)
    (found : text[position]? = some character) : character ∈ row := by
  rcases longest.isPrefix with ⟨back, isRest⟩
  have same : text[position]? = row[position - start]? := by
    rw [← List.getElem?_append_left (by omega : position - start < row.length), isRest,
      List.getElem?_drop, Nat.add_sub_cancel' later]
  exact List.mem_of_getElem? (same.symm.trans found)

theorem Tiles.cons (longest : Longest row (text.drop start))
    (denotes : Denotes declared row kind)
    (tiles : Tiles declared text (start + row.length) behind) :
    Tiles declared text start (⟨kind, ⟨start, row.length⟩⟩ :: behind) := by
  have slice : Span.slice ⟨start, row.length⟩ text = row :=
    (List.prefix_iff_eq_take.mp longest.isPrefix).symm
  have fits : start + row.length ≤ text.length := by
    have nonempty := longest.pos
    have inside := longest.isPrefix.length_le
    rw [List.length_drop] at inside
    omega
  constructor
  · exact List.pairwise_cons.mpr ⟨fun token member => (tiles.inside token member).1,
      tiles.ordered⟩
  · refine List.forall_mem_cons.mpr
      ⟨⟨Nat.le_refl start, longest.pos, fits⟩, fun token member => ?_⟩
    exact (tiles.inside token member).imp_left (Nat.le_trans (Nat.le_add_right ..))
  · intro position character later found
    rw [List.forall_mem_cons]
    by_cases inside : position < start + row.length
    · have notBlank :=
        longest.isLexeme.isBlank character (longest.mem_of_getElem? later inside found)
      refine iff_of_false (by simp [notBlank]) fun uncovered => ?_
      exact uncovered.1 ⟨later, inside⟩
    · rw [tiles.isBlank_iff position character (Nat.le_of_not_lt inside) found]
      exact (and_iff_right fun covers => inside covers.2).symm
  · exact List.forall_mem_cons.mpr ⟨slice.symm ▸ denotes, tiles.denotes⟩
  · exact List.forall_mem_cons.mpr ⟨slice.symm ▸ longest, tiles.longest⟩

theorem Tiles.exists_head (tiles : Tiles declared text start tokens)
    (rest : text.drop start = head :: tail) (notBlank : Text.isBlank head = false) :
    ∃ row kind behind, tokens = ⟨kind, ⟨start, row.length⟩⟩ :: behind ∧
      Longest row (head :: tail) ∧ Denotes declared row kind ∧
      Tiles declared text (start + row.length) behind := by
  have covered : ¬ ∀ token ∈ tokens, ¬ token.span.Covers start := by
    rw [← tiles.isBlank_iff start head (Nat.le_refl start) (getElem?_of_drop_eq rest)]
    simp [notBlank]
  cases tokens with
  | nil => exact absurd nofun covered
  | cons token behind =>
      rcases List.pairwise_cons.mp tiles.ordered with ⟨first, ordered⟩
      rcases List.forall_mem_cons.mp tiles.inside with ⟨⟨later, nonempty, fits⟩, inside⟩
      -- A token further behind starts later, so it does not reach over the first
      -- character.
      have covers : token.span.Covers start := by
        by_contra uncovered
        refine covered
          (List.forall_mem_cons.mpr ⟨uncovered, fun other member covers => ?_⟩)
        have before := first other member
        have reaches := covers.1
        rw [Span.stop] at before
        omega
      rcases token with ⟨kind, ⟨offset, length⟩⟩
      cases (Nat.le_antisymm covers.1 later : offset = start)
      have isLength : (Span.slice ⟨start, length⟩ text).length = length := by
        have fits : start + length ≤ text.length := fits
        rw [Span.slice, List.length_take, List.length_drop]
        exact Nat.min_eq_left (Nat.le_sub_of_add_le' fits)
      have longest := (List.forall_mem_cons.mp tiles.longest).1
      refine ⟨Span.slice ⟨start, length⟩ text, kind, behind, by rw [isLength],
        rest ▸ longest, (List.forall_mem_cons.mp tiles.denotes).1, ?_⟩
      rw [isLength]
      refine ⟨ordered, fun token member => ⟨first token member, (inside token member).2⟩,
        ?_, (List.forall_mem_cons.mp tiles.denotes).2,
        (List.forall_mem_cons.mp tiles.longest).2⟩
      intro position character behindFirst found
      rw [tiles.isBlank_iff position character
        (Nat.le_trans (Nat.le_add_right ..) behindFirst) found, List.forall_mem_cons]
      exact and_iff_right fun covers => absurd covers.2 (Nat.not_lt_of_le behindFirst)

theorem tiles_token_iff (rest : text.drop start = head :: tail)
    (longest : Longest row (head :: tail)) (denotes : Denotes declared row kind) :
    Tiles declared text start tokens ↔
      ∃ behind, tokens = ⟨kind, ⟨start, row.length⟩⟩ :: behind ∧
        Tiles declared text (start + row.length) behind := by
  constructor
  · intro tiles
    rcases tiles.exists_head rest longest.isBlank_head with
      ⟨other, found, behind, rfl, alsoLongest, alsoDenotes, further⟩
    cases longest.unique alsoLongest
    have same := (first_of_denotes longest denotes).symm.trans
      (first_of_denotes longest alsoDenotes)
    cases same
    exact ⟨behind, rfl, further⟩
  · rintro ⟨behind, rfl, further⟩
    exact further.cons (rest.symm ▸ longest) denotes

theorem fails_token_iff (rest : text.drop start = head :: tail)
    (longest : Longest row (head :: tail)) (denotes : Denotes declared row kind) :
    Fails declared text start error ↔ Fails declared text (start + row.length) error := by
  constructor
  · rintro ⟨position, faulty, fault, leads, misfit, isError⟩
    cases leads with
    | here =>
        rw [rest] at misfit
        cases (first_of_denotes longest denotes).symm.trans (first_of_misfit misfit)
    | blank found isBlank =>
        cases (getElem?_of_drop_eq rest).symm.trans found
        exact nomatch isBlank.symm.trans longest.isBlank_head
    | token alsoLongest _ leads =>
        rw [rest] at alsoLongest
        cases longest.unique alsoLongest
        exact ⟨position, faulty, fault, leads, misfit, isError⟩
  · rintro ⟨position, faulty, fault, leads, misfit, isError⟩
    exact ⟨position, faulty, fault, .token (rest.symm ▸ longest) denotes leads,
      misfit, isError⟩

/-! ### Faults -/

theorem not_tiles_of_misfit (rest : text.drop start = head :: tail)
    (misfit : Misfit declared (head :: tail) row fault) :
    ¬ Tiles declared text start tokens := by
  intro tiles
  rcases tiles.exists_head rest misfit.isBlank_head with ⟨_, _, _, _, longest, denotes, _⟩
  cases (first_of_denotes longest denotes).symm.trans (first_of_misfit misfit)

theorem fails_misfit_iff (rest : text.drop start = head :: tail)
    (misfit : Misfit declared (head :: tail) row fault) :
    Fails declared text start error ↔ error = .unreadable fault ⟨start, row.length⟩ := by
  constructor
  · rintro ⟨position, faulty, other, leads, alsoMisfit, rfl⟩
    cases leads with
    | here =>
        rw [rest] at alsoMisfit
        have same := (first_of_misfit misfit).symm.trans (first_of_misfit alsoMisfit)
        rcases Prod.mk.inj same with ⟨isFault, isLength⟩
        cases isFault
        rw [isLength]
    | blank found isBlank =>
        cases (getElem?_of_drop_eq rest).symm.trans found
        exact nomatch isBlank.symm.trans misfit.isBlank_head
    | token longest denotes =>
        rw [rest] at longest
        cases (first_of_denotes longest denotes).symm.trans (first_of_misfit misfit)
  · rintro rfl
    exact ⟨start, row, fault, .here, rest.symm ▸ misfit, rfl⟩

end Steps

/-! ## Scanning -/

theorem scanFrom_iff_tiles (declared : List String) (text : List Char) (start : Nat) :
    (∀ tokens, scanFrom declared start (text.drop start) = .ok tokens ↔
      Tiles declared text start tokens) ∧
    ∀ error, scanFrom declared start (text.drop start) = .error error ↔
      Fails declared text start error := by
  -- Along the scan, with what tilings and failures have at the end, at a blank, a token
  -- or a fault.
  generalize rest : text.drop start = remaining
  fun_induction scanFrom declared start remaining with
  | case1 start =>
      refine ⟨fun tokens => ?_, fun error => ?_⟩
      · rw [tiles_end_iff rest, Except.ok.injEq, eq_comm]
      · exact iff_of_false nofun (not_fails_end rest)
  | case2 start head tail isBlank induction =>
      simp only [tiles_blank_iff rest isBlank, fails_blank_iff rest isBlank]
      exact induction (drop_behind_of_drop_eq rest Nat.one_pos)
  | case3 start head tail notBlank fault length isFirst =>
      rcases (first_eq_error_iff (by simpa using notBlank)).mp isFirst with
        ⟨row, misfit, rfl⟩
      refine ⟨fun tokens => ?_, fun error => ?_⟩
      · exact iff_of_false nofun (not_tiles_of_misfit rest misfit)
      · rw [fails_misfit_iff rest misfit, Except.error.injEq, eq_comm]
  | case4 start head tail notBlank kind length isFirst failed further induction =>
      rcases (first_eq_ok_iff (by simpa using notBlank)).mp isFirst with
        ⟨row, longest, denotes, rfl⟩
      have known := induction (drop_behind_of_drop_eq rest longest.pos)
      simp only [tiles_token_iff rest longest denotes,
        fails_token_iff rest longest denotes]
      rw [further] at known
      refine ⟨fun tokens => iff_of_false nofun ?_, known.2⟩
      rintro ⟨behind, _, tiles⟩
      exact nomatch (known.1 behind).mpr tiles
  | case5 start head tail notBlank kind length isFirst tokens further induction =>
      rcases (first_eq_ok_iff (by simpa using notBlank)).mp isFirst with
        ⟨row, longest, denotes, rfl⟩
      have known := induction (drop_behind_of_drop_eq rest longest.pos)
      simp only [tiles_token_iff rest longest denotes,
        fails_token_iff rest longest denotes]
      rw [further] at known
      refine ⟨fun all => ?_, fun error => ?_⟩
      · simp only [← known.1, Except.ok.injEq]
        constructor
        · rintro rfl
          exact ⟨tokens, rfl, rfl⟩
        · rintro ⟨_, rfl, rfl⟩
          rfl
      · rw [← known.2]
        exact iff_of_false nofun nofun

/-- Cutting a text into tokens loses nothing. It comes to the tokens that tile the text,
if there are such ones, and it ends in an error exactly if blanks and tokens lead to
something that is no token. -/
theorem scan_iff_tiles (declared : List String) (text : String) :
    (∀ tokens, scan declared text = .ok tokens ↔ Tiles declared text.toList 0 tokens) ∧
    ∀ error, scan declared text = .error error ↔
      ∃ position row fault, Leads declared text.toList 0 position ∧
        Misfit declared (text.toList.drop position) row fault ∧
        error = .unreadable fault ⟨position, row.length⟩ :=
  scanFrom_iff_tiles declared text.toList 0

example : (scan ["x"] "x>= 12.5").toOption.map (·.map Token.span) =
    some [⟨0, 1⟩, ⟨1, 2⟩, ⟨4, 4⟩] := by
  decide +kernel

end Token

end LSystems
