import LSystems.Expr.Token
import LSystems.Proofs.Decimal.Numerals

/-!
# Tokens of texts

What a text has as its tokens, whatever stands behind it. Numbers and names go on as
long as they can, so what stands behind one of them has to stop it.
-/

namespace LSystems

/-! ## Characters -/

namespace Text

def blankCodes : List Nat :=
  [0x09, 0x0a, 0x0b, 0x0c, 0x0d, 0x20, 0x85, 0xa0, 0x1680, 0x2000, 0x2001, 0x2002,
    0x2003, 0x2004, 0x2005, 0x2006, 0x2007, 0x2008, 0x2009, 0x200a, 0x2028, 0x2029,
    0x202f, 0x205f, 0x3000]

theorem mem_blankCodes {character : Char} (blank : isBlank character = true) :
    character.toNat ∈ blankCodes := by
  simp only [blankCodes, List.mem_cons, List.not_mem_nil, or_false]
  rw [isBlank] at blank
  split at blank
  · simp only [Bool.or_eq_true, Bool.and_eq_true, beq_iff_eq, decide_eq_true_eq] at blank
    omega
  · simp only [Bool.or_eq_true, Bool.and_eq_true, beq_iff_eq, decide_eq_true_eq] at blank
    omega

theorem isBlank_of_continuesName {character : Char}
    (continues : continuesName character = true) :
    isBlank character = false := by
  have none : ∀ code ∈ blankCodes, continuesName (Char.ofNat code) = false := by
    decide +kernel
  cases blank : isBlank character with
  | false => rfl
  | true =>
      have isNone := none character.toNat (mem_blankCodes blank)
      rw [Char.ofNat_toNat] at isNone
      exact nomatch continues.symm.trans isNone

theorem continuesName_of_mem {name : List Char} (isName : isName name = true) :
    ∀ character ∈ name, continuesName character = true := by
  cases name with
  | nil => contradiction
  | cons head tail =>
      simp only [Text.isName, Bool.and_eq_true, List.all_eq_true] at isName
      exact List.forall_mem_cons.mpr ⟨continuesName_of_startsName isName.1, isName.2⟩

end Text

namespace Token

theorem le_toNat_of_isDigit {character : Char} (digit : character.isDigit = true) :
    48 ≤ character.toNat ∧ character.toNat ≤ 57 := by
  simp only [Char.isDigit, Bool.and_eq_true, decide_eq_true_eq, ge_iff_le,
    UInt32.le_iff_toNat_le] at digit
  exact digit

theorem isBlank_of_inNumber {character : Char} (inside : inNumber character) :
    Text.isBlank character = false := by
  rcases Bool.or_eq_true _ _ ▸ inside with digit | point
  · rcases le_toNat_of_isDigit digit with ⟨low, high⟩
    have ascii : character.toNat < 0x80 := by omega
    simp only [Text.isBlank, if_pos ascii, Bool.or_eq_false_iff, beq_eq_false_iff_ne,
      Bool.and_eq_false_iff, decide_eq_false_iff_not]
    omega
  · rw [beq_iff_eq.mp point]
    decide

theorem inNumber_of_startsName {character : Char}
    (starts : Text.startsName character = true) :
    inNumber character = false := by
  have none : ∀ code ∈ List.range' 48 10, Text.startsName (Char.ofNat code) = false := by
    decide +kernel
  cases inside : inNumber character with
  | false => rfl
  | true =>
      rcases Bool.or_eq_true _ _ ▸ inside with digit | point
      · rcases le_toNat_of_isDigit digit with ⟨low, high⟩
        have isNone := none character.toNat (List.mem_range'_1.mpr ⟨low, by omega⟩)
        rw [Char.ofNat_toNat] at isNone
        exact nomatch starts.symm.trans isNone
      · rw [beq_iff_eq.mp point] at starts
        contradiction

/-! ## Texts and their tokens -/

/-- Nothing stands at the start of the text that would go on with a number or a name. -/
def Stops (text : List Char) : Prop :=
  ∀ character ∈ text.head?, inNumber character = false ∧
    Text.continuesName character = false

theorem stops_blank (rest : List Char) : Stops (' ' :: rest) := by
  rintro _ ⟨⟩
  decide +kernel

theorem stops_closing (rest : List Char) : Stops (')' :: rest) := by
  rintro _ ⟨⟩
  decide +kernel

/-- The text is cut into tokens of these kinds, whatever stands in front of it, and
whatever stands behind it and stops. -/
def Scans (declared : List String) (text : List Char) (kinds : List TokenKind) : Prop :=
  ∀ offset rest, Stops rest → ∃ tokens, tokens.map Token.kind = kinds ∧
    scanFrom declared offset (text ++ rest) =
      (scanFrom declared (offset + text.length) rest).map (tokens ++ ·)

variable {declared : List String} {text front : List Char} {kinds first : List TokenKind}

theorem map_map_append (scanned : Except Error (List Token)) (front back : List Token) :
    (scanned.map (back ++ ·)).map (front ++ ·) = scanned.map ((front ++ back) ++ ·) := by
  cases scanned <;> simp [Except.map]

theorem Scans.exists_scanFrom (scans : Scans declared text kinds) (offset : Nat) :
    ∃ tokens, scanFrom declared offset text = .ok tokens ∧
      tokens.map Token.kind = kinds := by
  rcases scans offset [] nofun with ⟨tokens, areKinds, scanned⟩
  refine ⟨tokens, ?_, areKinds⟩
  simpa [scanFrom, Except.map] using scanned

theorem Scans.append (scans : Scans declared front first)
    (further : Scans declared text kinds)
    (stops : ∀ rest, Stops rest → Stops (text ++ rest)) :
    Scans declared (front ++ text) (first ++ kinds) := by
  intro offset rest restStops
  rcases scans offset (text ++ rest) (stops rest restStops) with
    ⟨tokens, areKinds, scanned⟩
  rcases further (offset + front.length) rest restStops with ⟨more, areMore, alsoScanned⟩
  refine ⟨tokens ++ more, by rw [List.map_append, areKinds, areMore], ?_⟩
  rw [List.append_assoc, scanned, alsoScanned, map_map_append, List.length_append,
    Nat.add_assoc]

theorem scans_nil (declared : List String) : Scans declared [] [] := by
  intro offset rest _
  refine ⟨[], rfl, ?_⟩
  rw [List.nil_append, List.length_nil, Nat.add_zero]
  cases scanFrom declared offset rest <;> rfl

theorem Scans.behind_blanks (scans : Scans declared text kinds) {blanks : List Char}
    (blank : blanks.all Text.isBlank = true) : Scans declared (blanks ++ text) kinds := by
  induction blanks with
  | nil => exact scans
  | cons head tail induction =>
      rw [List.all_cons, Bool.and_eq_true] at blank
      intro offset rest stops
      rcases induction blank.2 (offset + 1) rest stops with ⟨tokens, areKinds, scanned⟩
      refine ⟨tokens, areKinds, ?_⟩
      rw [List.cons_append, List.cons_append, scanFrom, if_pos blank.1, scanned,
        List.length_cons, Nat.add_assoc, Nat.add_comm 1]

theorem scanFrom_of_first {head : Char} {tail rest : List Char} {kind : TokenKind}
    (notBlank : Text.isBlank head = false)
    (isFirst : Token.first declared head (tail ++ rest) = (.ok kind, tail.length + 1))
    (offset : Nat) :
    scanFrom declared offset (head :: (tail ++ rest)) =
      (scanFrom declared (offset + (tail.length + 1)) rest).map
        ([⟨kind, ⟨offset, tail.length + 1⟩⟩] ++ ·) := by
  rw [scanFrom]
  simp only [notBlank, Bool.false_eq_true, if_false, isFirst, Nat.add_sub_cancel,
    List.drop_left]
  cases scanFrom declared (offset + (tail.length + 1)) rest <;> rfl

/-! ## Signs and parentheses -/

theorem first_of_mark {head : Char} {tail : List Char} {kind : TokenKind} {length : Nat}
    (notNumber : inNumber head = false) (notName : Text.startsName head = false)
    (marks : mark? head tail = some (kind, length)) :
    Token.first declared head tail = (.ok kind, length) := by
  simp only [Token.first, notNumber, Bool.false_eq_true, if_false, notName, marks]

theorem Scans.behind_mark {mark : Char} {kind : TokenKind}
    (notBlank : Text.isBlank mark = false) (notNumber : inNumber mark = false)
    (notName : Text.startsName mark = false)
    (marks : ∀ tail, mark? mark tail = some (kind, 1))
    (scans : Scans declared text kinds) :
    Scans declared (mark :: text) (kind :: kinds) := by
  intro offset rest stops
  rcases scans (offset + 1) rest stops with ⟨tokens, areKinds, scanned⟩
  have isFirst : Token.first declared mark ([] ++ (text ++ rest)) = (.ok kind, 1) :=
    first_of_mark notNumber notName (marks _)
  refine ⟨⟨kind, ⟨offset, 1⟩⟩ :: tokens, congrArg _ areKinds, ?_⟩
  have scannedHere := scanFrom_of_first notBlank isFirst offset
  rw [List.nil_append] at scannedHere
  rw [List.cons_append, scannedHere, List.length_nil, Nat.zero_add, scanned,
    map_map_append, List.length_cons, Nat.add_assoc, Nat.add_comm 1]
  rfl

theorem mark?_of_ofChars?_eq_none {mark : Char}
    (single : ∀ next, Operator.ofChars? mark next = none) (tail : List Char) :
    mark? mark tail = mark? mark [] := by
  have none : tail.head?.bind (Operator.ofChars? mark) = none := by
    cases tail with
    | nil => rfl
    | cons head tail => exact single head
  rw [mark?, none]
  rfl

theorem Scans.behind_opening (scans : Scans declared text kinds) :
    Scans declared ('(' :: text) (.opening :: kinds) :=
  scans.behind_mark (by decide) (by decide) (by decide +kernel)
    (mark?_of_ofChars?_eq_none fun _ => rfl)

theorem Scans.behind_minus (scans : Scans declared text kinds) :
    Scans declared ('-' :: text) (.operator .subtract :: kinds) :=
  scans.behind_mark (by decide) (by decide) (by decide +kernel)
    (mark?_of_ofChars?_eq_none fun _ => rfl)

theorem scans_closing (declared : List String) : Scans declared [')'] [.closing] :=
  (scans_nil declared).behind_mark (by decide) (by decide) (by decide +kernel)
    (mark?_of_ofChars?_eq_none fun _ => rfl)

theorem exists_mark?_symbol (op : Operator) :
    ∃ head tail, op.symbol.toList = head :: tail ∧ Text.isBlank head = false ∧
      inNumber head = false ∧ Text.startsName head = false ∧
      ∀ rest,
        mark? head (tail ++ ' ' :: rest) = some (.operator op, tail.length + 1) := by
  cases op <;> exact ⟨_, _, rfl, by decide, by decide, by decide +kernel, fun _ => rfl⟩

theorem Scans.behind_symbol (op : Operator) (scans : Scans declared (' ' :: text) kinds) :
    Scans declared (op.symbol.toList ++ ' ' :: text) (.operator op :: kinds) := by
  rcases exists_mark?_symbol op with
    ⟨head, tail, isSymbol, notBlank, notNumber, notName, marks⟩
  intro offset rest stops
  rcases scans (offset + (tail.length + 1)) rest stops with ⟨tokens, areKinds, scanned⟩
  have isFirst : Token.first declared head (tail ++ ' ' :: (text ++ rest)) =
      (.ok (.operator op), tail.length + 1) := first_of_mark notNumber notName (marks _)
  refine ⟨⟨.operator op, ⟨offset, tail.length + 1⟩⟩ :: tokens, congrArg _ areKinds, ?_⟩
  rw [List.cons_append] at scanned
  rw [isSymbol, List.append_assoc, List.cons_append, List.cons_append,
    scanFrom_of_first notBlank isFirst, scanned, map_map_append, List.length_append,
    Nat.add_assoc]
  rfl

/-! ## Numbers and names -/

theorem takeWhile_append_of_stops {inside : Char → Bool} {row rest : List Char}
    (all : ∀ character ∈ row, inside character)
    (stops : ∀ character ∈ rest.head?, inside character = false) :
    (row ++ rest).takeWhile inside = row := by
  rw [List.takeWhile_append_of_pos all]
  cases rest with
  | nil => simp
  | cons head tail => simp [stops head rfl]

theorem scans_row (declared : List String) {row : List Char} {bits : Nat}
    (writes : Numeral.Writes row bits) :
    Scans declared row [.number (Decimal.ofMagnitude false bits)] := by
  rcases writes with ⟨nonempty, plain, numeral, isRead, nearest⟩
  have inside : ∀ character ∈ row, inNumber character := by
    intro character member
    simpa [inNumber] using plain character member
  cases row with
  | nil => contradiction
  | cons head tail =>
      intro offset rest stops
      have isFirst := inside head (List.mem_cons_self ..)
      have taken : (head :: (tail ++ rest)).takeWhile inNumber = head :: tail :=
        takeWhile_append_of_stops inside fun character member =>
          (stops character member).1
      have isToken : Token.first declared head (tail ++ rest) =
          (.ok (.number (Decimal.ofMagnitude false bits)), tail.length + 1) := by
        simp only [Token.first, isFirst, if_true, taken, isRead, Numeral.toFloat, nearest,
          List.length_cons]
      exact ⟨_, rfl, scanFrom_of_first (isBlank_of_inNumber isFirst) isToken offset⟩

theorem scans_name {name : String} (isName : Text.isName name.toList = true)
    (known : name ∈ declared) : Scans declared name.toList [.name name] := by
  have inside := Text.continuesName_of_mem isName
  cases row : name.toList with
  | nil =>
      rw [row] at isName
      contradiction
  | cons head tail =>
      rw [row] at isName inside
      simp only [Text.isName, Bool.and_eq_true] at isName
      have notBlank := Text.isBlank_of_continuesName (inside head (List.mem_cons_self ..))
      have notNumber := inNumber_of_startsName isName.1
      have same : String.ofList (head :: tail) = name := by
        rw [← row, String.ofList_toList]
      intro offset rest stops
      have taken : (head :: (tail ++ rest)).takeWhile Text.continuesName = head :: tail :=
        takeWhile_append_of_stops inside fun character member =>
          (stops character member).2
      have isToken : Token.first declared head (tail ++ rest) =
          (.ok (.name name), tail.length + 1) := by
        simp only [Token.first, notNumber, Bool.false_eq_true, if_false, isName.1,
          if_true, taken, same, known, List.length_cons]
      exact ⟨_, rfl, scanFrom_of_first notBlank isToken offset⟩

end Token

end LSystems
