import LSystems.Proofs.Letters

/-!
# Parts of texts

Readers cut a text into fragments and count for each the characters in front of it. A
fragment that is cut out of another one stands in it at the place that it says: the
pieces of a text one behind another, and the arguments of a piece inside it. Main
statements: `contiguous_cut`, `partOf_of_mem_arguments`.
-/

namespace LSystems

namespace Fragment

def PartOf (part whole : Fragment) : Prop :=
  ∃ front back, whole.text = front ++ (part.text ++ back) ∧
    part.offset = whole.offset + front.length

variable {part middle whole : Fragment} {offset : Nat} {text : List Char}

theorem PartOf.refl (fragment : Fragment) : fragment.PartOf fragment :=
  ⟨[], [], by simp, rfl⟩

theorem PartOf.trans (inner : part.PartOf middle) (outer : middle.PartOf whole) :
    part.PartOf whole := by
  rcases inner with ⟨front, back, isMiddle, isPart⟩
  rcases outer with ⟨first, last, isWhole, starts⟩
  refine ⟨first ++ front, back ++ last, ?_, ?_⟩
  · rw [isWhole, isMiddle]
    simp
  · rw [isPart, starts, List.length_append, Nat.add_assoc]

theorem PartOf.stop_le (inside : part.PartOf whole) :
    part.span.stop ≤ whole.span.stop := by
  rcases inside with ⟨front, back, isWhole, starts⟩
  simp only [span, Span.stop, starts, isWhole, List.length_append]
  omega

theorem PartOf.slice_eq (inside : part.PartOf ⟨0, text⟩) :
    part.span.slice text = part.text := by
  rcases inside with ⟨front, back, rfl, starts⟩
  rw [Nat.zero_add] at starts
  simp [Span.slice, span, starts]

theorem partOf_append (offset : Nat) (front text back : List Char) :
    PartOf ⟨offset + front.length, text⟩ ⟨offset, front ++ (text ++ back)⟩ :=
  ⟨front, back, rfl, rfl⟩

theorem partOf_drop {count : Nat} (inside : count ≤ text.length) (offset : Nat) :
    PartOf ⟨offset + count, text.drop count⟩ ⟨offset, text⟩ := by
  refine ⟨text.take count, [], by simp, ?_⟩
  rw [List.length_take, Nat.min_eq_left inside]

theorem partOf_tail (offset : Nat) (head : Char) (tail : List Char) :
    PartOf ⟨offset + 1, tail⟩ ⟨offset, head :: tail⟩ :=
  ⟨[head], [], by simp, rfl⟩

theorem partOf_of_isPrefix {first : List Char} (starts : first <+: text) (offset : Nat) :
    PartOf ⟨offset, first⟩ ⟨offset, text⟩ := by
  rcases starts with ⟨back, rfl⟩
  exact ⟨[], back, rfl, rfl⟩

theorem partOf_of_isSuffix {last : List Char} (ends : last <:+ text) (offset : Nat) :
    PartOf ⟨offset + (text.length - last.length), last⟩ ⟨offset, text⟩ := by
  rcases ends with ⟨front, rfl⟩
  refine ⟨front, [], by simp, ?_⟩
  simp

/-! ## Arguments -/

theorem exists_splitCommas (groups : Bool) (depth : Nat) (text : List Char) :
    ∃ first further, splitCommas groups depth text = first :: further := by
  unfold splitCommas
  split
  · exact ⟨_, _, rfl⟩
  · split
    · exact ⟨_, _, rfl⟩
    · dsimp only
      split
      · exact ⟨_, _, rfl⟩
      · exact ⟨_, _, rfl⟩

theorem intercalate_splitCommas (groups : Bool) (depth : Nat) (text : List Char) :
    [','].intercalate (splitCommas groups depth text) = text := by
  induction text generalizing depth with
  | nil => rfl
  | cons character rest induction =>
      rw [splitCommas]
      split
      · next isComma =>
          rw [Bool.and_eq_true, decide_eq_true_eq] at isComma
          rcases exists_splitCommas groups depth rest with ⟨first, further, isSplit⟩
          have joined := induction depth
          rw [isSplit] at joined ⊢
          rw [List.intercalate_cons_cons, joined, isComma.1]
          rfl
      · dsimp only
        generalize (if (!groups) = true then depth
          else if character = '(' then depth + 1
          else if character = ')' then depth - 1 else depth) = deeper
        rcases exists_splitCommas groups deeper rest with ⟨first, further, isSplit⟩
        have joined := induction deeper
        rw [isSplit] at joined ⊢
        dsimp only
        rw [← joined]
        cases further with
        | nil => simp
        | cons next further => simp

theorem partOf_of_mem_locate {parts : List (List Char)}
    (member : part ∈ locate offset parts) :
    part.PartOf ⟨offset, [','].intercalate parts⟩ := by
  induction parts generalizing offset with
  | nil => contradiction
  | cons text parts induction =>
      cases parts with
      | nil =>
          rw [List.mem_singleton.mp member, List.intercalate_singleton]
          exact .refl _
      | cons next parts =>
          rw [List.intercalate_cons_cons, List.append_assoc]
          rcases List.mem_cons.mp member with rfl | member
          · exact partOf_append offset [] text _
          · have further :=
              partOf_append offset (text ++ [',']) ([','].intercalate (next :: parts)) []
            rw [List.append_nil, List.append_assoc, List.length_append,
              ← Nat.add_assoc] at further
            exact (induction member).trans further

theorem partOf_of_mem_arguments {groups : Bool} (member : part ∈ whole.arguments groups) :
    part.PartOf whole := by
  unfold arguments at member
  split at member
  · contradiction
  · have inside := partOf_of_mem_locate member
    rwa [intercalate_splitCommas] at inside

end Fragment

/-! ## Pieces -/

section Cut

variable {offset : Nat} {letter : Char} {rest next text : List Char} {piece : Piece}

theorem dropBlanks_isSuffix (text : List Char) : Text.dropBlanks text <:+ text :=
  List.dropWhile_suffix Text.isBlank

theorem takeWhile_dropBlanks (text : List Char) :
    (Text.dropBlanks text).takeWhile Text.isBlank = [] := by
  induction text with
  | nil => rfl
  | cons head tail induction =>
      cases blank : Text.isBlank head with
      | true =>
          rw [Text.dropBlanks, List.dropWhile_cons_of_pos blank]
          exact induction
      | false =>
          have notBlank : ¬ Text.isBlank head = true := by simp [blank]
          rw [Text.dropBlanks, List.dropWhile_cons_of_neg notBlank,
            List.takeWhile_cons_of_neg notBlank]

theorem partOf_behind (behind : next <:+ rest) (offset : Nat) (letter : Char) :
    Fragment.PartOf ⟨offset + 1 + (rest.length - next.length), next⟩
      ⟨offset, letter :: rest⟩ :=
  (Fragment.partOf_of_isSuffix behind (offset + 1)).trans
    (Fragment.partOf_tail offset letter rest)

/-- The piece starts with its letter, at its place in the text, and its arguments stand
there too. -/
structure Piece.StandsIn (piece : Piece) (whole : Fragment) : Prop where
  letter : ∃ own, Fragment.PartOf ⟨piece.span.offset, piece.letter :: own⟩ whole ∧
    piece.span.length = own.length + 1
  arguments : ∀ arguments ∈ piece.arguments, arguments.PartOf whole

theorem Piece.StandsIn.mono {part whole : Fragment} (stands : piece.StandsIn part)
    (inside : part.PartOf whole) : piece.StandsIn whole := by
  rcases stands with ⟨⟨own, starts, length⟩, arguments⟩
  refine ⟨⟨own, starts.trans inside, length⟩, fun fragment isArguments => ?_⟩
  exact (arguments fragment isArguments).trans inside

theorem Piece.StandsIn.stop_le {whole : Fragment} (stands : piece.StandsIn whole) :
    piece.span.stop ≤ whole.span.stop := by
  rcases stands.letter with ⟨own, starts, length⟩
  have le := starts.stop_le
  simp only [Fragment.span, Span.stop, List.length_cons] at le ⊢
  omega

theorem Piece.standsIn_head (offset : Nat) (letter : Char) (rest next : List Char)
    {arguments : Option Fragment}
    (stand : ∀ fragment ∈ arguments, fragment.PartOf ⟨offset, letter :: rest⟩) :
    Piece.StandsIn ⟨letter, arguments,
      ⟨offset, offset + 1 + (rest.length - next.length) - offset⟩⟩
      ⟨offset, letter :: rest⟩ := by
  have isPrefix : letter :: rest.take (rest.length - next.length) <+: letter :: rest :=
    List.cons_prefix_cons.mpr ⟨rfl, List.take_prefix ..⟩
  refine ⟨⟨_, Fragment.partOf_of_isPrefix isPrefix offset, ?_⟩, stand⟩
  rw [List.length_take]
  dsimp only
  omega

theorem arguments_behind {body inside behind : List Char}
    (isBody : Text.dropBlanks rest = '(' :: body)
    (isSplit : splitClosing? 0 body = some (inside, behind)) (offset : Nat)
    (letter : Char) :
    Fragment.PartOf ⟨offset + 1 + (rest.length - (body.length + 1)) + 1, inside⟩
        ⟨offset, letter :: rest⟩ ∧
      Text.dropBlanks behind <:+ rest := by
  have opened : '(' :: body <:+ rest := isBody ▸ dropBlanks_isSuffix rest
  have isSuffix : body <:+ rest := (List.suffix_cons '(' body).trans opened
  have isPrefix : inside <+: body := ⟨')' :: behind, (splitClosing?_eq isSplit).symm⟩
  have closed : ')' :: behind <:+ body := ⟨inside, (splitClosing?_eq isSplit).symm⟩
  have length := opened.length_le
  rw [List.length_cons] at length
  have start : offset + 1 + (rest.length - (body.length + 1)) + 1 =
      offset + 1 + (rest.length - body.length) := by omega
  constructor
  · rw [start]
    exact (Fragment.partOf_of_isPrefix isPrefix _).trans
      (partOf_behind isSuffix offset letter)
  · exact (dropBlanks_isSuffix behind).trans
      (((List.suffix_cons ')' behind).trans closed).trans isSuffix)

theorem standsIn_of_mem_cut (member : piece ∈ (cut offset text).1) :
    piece.StandsIn ⟨offset, text⟩ := by
  fun_induction cut offset text with
  | case1 => contradiction
  | case2 offset letter rest _ induction =>
      exact (induction member).mono (Fragment.partOf_tail offset letter rest)
  | case3 => contradiction
  | case4 => contradiction
  | case5 offset letter rest _ _ body isBody opening inside behind isSplit next stop
      pieces failure
      isCut induction =>
      rcases arguments_behind isBody isSplit offset letter with ⟨stands, isSuffix⟩
      rcases List.mem_cons.mp member with rfl | member
      · apply Piece.standsIn_head offset letter rest next
        rintro _ ⟨⟩
        exact stands
      · exact (induction (isCut ▸ member)).mono (partOf_behind isSuffix offset letter)
  | case6 offset letter rest _ _ _ _ pieces failure isCut induction =>
      rcases List.mem_cons.mp member with rfl | member
      · apply Piece.standsIn_head offset letter rest (Text.dropBlanks rest)
        exact fun _ isNone => absurd isNone (Option.not_mem_none _)
      · exact (induction (isCut ▸ member)).mono
          (partOf_behind (dropBlanks_isSuffix rest) offset letter)

theorem contiguous_cons {spans : List Span} (notBlank : ¬ Text.isBlank letter = true)
    (behind : next <:+ rest) (noBlank : next.takeWhile Text.isBlank = []) (offset : Nat)
    (further : Word.Contiguous
      (offset + 1 + (rest.length - next.length) + (next.takeWhile Text.isBlank).length)
      (offset + 1 + (rest.length - next.length) + next.length) spans) :
    Word.Contiguous (offset + ((letter :: rest).takeWhile Text.isBlank).length)
      (offset + (letter :: rest).length)
      (⟨offset, offset + 1 + (rest.length - next.length) - offset⟩ :: spans) := by
  have length := behind.length_le
  rw [List.takeWhile_cons_of_neg notBlank, List.length_nil, Nat.add_zero,
    List.length_cons]
  rw [noBlank, List.length_nil, Nat.add_zero] at further
  refine ⟨rfl, ?_⟩
  have start : Span.stop ⟨offset, offset + 1 + (rest.length - next.length) - offset⟩ =
      offset + 1 + (rest.length - next.length) := by
    dsimp only [Span.stop]
    omega
  have stop : offset + (rest.length + 1) =
      offset + 1 + (rest.length - next.length) + next.length := by omega
  rwa [start, stop]

theorem contiguous_cut (done : (cut offset text).2 = none) :
    Word.Contiguous (offset + (text.takeWhile Text.isBlank).length) (offset + text.length)
      ((cut offset text).1.map Piece.span) := by
  fun_induction cut offset text with
  | case1 => rfl
  | case2 offset letter rest isBlank induction =>
      have further := induction done
      rw [List.takeWhile_cons_of_pos isBlank, List.length_cons, List.length_cons]
      rwa [Nat.add_right_comm, Nat.add_assoc, Nat.add_right_comm,
        Nat.add_assoc] at further
  | case3 => contradiction
  | case4 => contradiction
  | case5 offset letter rest notBlank _ body isBody opening inside behind isSplit
      next stop pieces
      failure isCut induction =>
      have isSuffix := (arguments_behind isBody isSplit offset letter).2
      rw [isCut] at induction
      exact contiguous_cons notBlank isSuffix (takeWhile_dropBlanks behind) offset
        (induction done)
  | case6 offset letter rest notBlank _ _ _ pieces failure isCut induction =>
      rw [isCut] at induction
      exact contiguous_cons notBlank (dropBlanks_isSuffix rest)
        (takeWhile_dropBlanks rest) offset
        (induction done)

end Cut

theorem Emission.span_of_ofPiece {scope : Scope} {piece : Piece}
    {emission : Emission Char} (done : ofPiece scope piece = .ok emission) :
    emission.span = piece.span := by
  simp only [ofPiece, bind_eq_ok, pure_eq_ok] at done
  rcases done with ⟨_, _, rfl⟩
  rfl

theorem Production.span_of_patternSymbol {piece : Piece} {symbol : PatternSymbol}
    (done : patternSymbol piece = .ok symbol) : symbol.span = piece.span := by
  simp only [patternSymbol, bind_eq_ok, pure_eq_ok] at done
  rcases done with ⟨_, _, rfl⟩
  rfl

end LSystems
