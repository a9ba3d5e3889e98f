import LSystems.Proofs.Expr.ErrorPlaces
import LSystems.Proofs.Production.Sections

/-!
# Places of errors in rules

Whatever is read of a rule or of a word to start from, an error points into the text
that is read, and one that quotes something points at what it quotes. Every reader is
followed from those that it calls. Main statement: `Error.located`.
-/

namespace LSystems

open Error

/-! ## Pieces -/

section Pieces

variable {offset : Nat} {text : List Char} {error : Error} {whole fragment : Fragment}

theorem endsBy_of_cut (failed : (cut offset text).2 = some error) :
    error.EndsBy (offset + text.length) := by
  fun_induction cut offset text with
  | case1 => contradiction
  | case2 offset letter rest _ induction =>
      have ends := induction failed
      rwa [Nat.add_right_comm] at ends
  | case3 offset letter rest notBlank fault faulty =>
      cases failed
      refine .unreadable ?_ (Nat.add_le_add_left (Nat.le_add_left ..) _)
      unfold letterFault? at faulty
      split at faulty
      · cases faulty
        rfl
      · split at faulty
        · cases faulty
          rfl
        · contradiction
  | case4 offset letter rest _ _ body isBody opening =>
      cases failed
      have opened := (isBody ▸ dropBlanks_isSuffix rest : '(' :: body <:+ rest).length_le
      refine .unreadable rfl ?_
      simp only [List.length_cons, Span.stop] at opened ⊢
      omega
  | case5 offset letter rest _ _ body isBody opening inside behind isSplit next stop
      pieces failure
      isCut induction =>
      have behind :=
        (partOf_behind (arguments_behind isBody isSplit offset letter).2 offset letter)
      rw [isCut] at induction
      exact (induction failed).mono behind.stop_le
  | case6 offset letter rest _ _ _ _ pieces failure isCut induction =>
      have behind := partOf_behind (dropBlanks_isSuffix rest) offset letter
      rw [isCut] at induction
      exact (induction failed).mono behind.stop_le

theorem ErrorsAre.readPieces {α : Type} {kind : Error → Prop}
    {meaning : Piece → Except Error α} {pieces : List Piece} {failure : Option Error}
    (each : ∀ piece ∈ pieces, ErrorsAre kind (meaning piece))
    (ofFailure : ∀ fault ∈ failure, kind fault) :
    ErrorsAre kind (LSystems.readPieces meaning (pieces, failure)).outcome := by
  induction pieces with
  | nil =>
      cases failure with
      | none =>
          rw [LSystems.readPieces]
          exact .ok _
      | some fault =>
          rw [LSystems.readPieces]
          exact .error (ofFailure fault rfl)
  | cons piece rest induction =>
      rcases List.forall_mem_cons.mp each with ⟨first, further⟩
      simp only [LSystems.readPieces, Reading.outcome_bind, Reading.outcome_lift]
      exact .bind first fun _ _ => .bind (.ok _) fun _ _ =>
        .bind (induction further) fun _ _ => .ok _

theorem pointsInto_readPieces {α : Type} {meaning : Piece → Except Error α}
    (each : ∀ piece : Piece, piece.StandsIn fragment →
      ErrorsAre (PointsInto fragment) (meaning piece)) :
    ErrorsAre (PointsInto fragment)
      (readPieces meaning (cut fragment.offset fragment.text)).outcome :=
  .readPieces (fun piece member => each piece (standsIn_of_mem_cut member))
    fun _ failed => .plain (endsBy_of_cut failed)

theorem stop_le_of_readPieces {α : Type} {meaning : Piece → Except Error α}
    {place : α → Span}
    (keeps : ∀ piece result, meaning piece = .ok result → place result = piece.span)
    {results : List α}
    (done : (readPieces meaning (cut fragment.offset fragment.text)).outcome =
      .ok results) :
    ∀ result ∈ results, (place result).stop ≤ fragment.span.stop := by
  intro result member
  rcases exists_of_mem_readPieces done member with ⟨piece, isPiece, isResult⟩
  rw [keeps piece result isResult]
  exact (standsIn_of_mem_cut isPiece).stop_le

theorem endsBy_checkBalance {α : Type} [DecidableEq α] (branches : BranchPair α)
    (place : Section) {bound : Nat} {opened : List Span} {row : List (α × Span)}
    (openedEnd : ∀ span ∈ opened, span.stop ≤ bound)
    (rowEnds : ∀ pair ∈ row, pair.2.stop ≤ bound) :
    ErrorsAre (EndsBy bound) (checkBalance branches place opened row) := by
  fun_induction checkBalance branches place opened row with
  | case1 => exact .ok _
  | case2 => exact .error (.unreadable rfl (List.forall_mem_cons.mp openedEnd).1)
  | case3 opened span rest induction =>
      rcases List.forall_mem_cons.mp rowEnds with ⟨first, further⟩
      exact induction (List.forall_mem_cons.mpr ⟨first, openedEnd⟩) further
  | case4 => exact .error (.unreadable rfl (List.forall_mem_cons.mp rowEnds).1)
  | case5 span rest _ innermost opened induction =>
      exact induction (List.forall_mem_cons.mp openedEnd).2
        (List.forall_mem_cons.mp rowEnds).2
  | case6 opened symbol span rest _ _ induction =>
      exact induction openedEnd (List.forall_mem_cons.mp rowEnds).2

/-! ## Replacements and words to start from -/

theorem Piece.StandsIn.partOf_of_mem {piece : Piece} (stands : piece.StandsIn whole)
    {groups : Bool} {argument : Fragment}
    (member : argument ∈ (piece.arguments.map (Fragment.arguments groups)).getD []) :
    argument.PartOf whole := by
  cases isArguments : piece.arguments with
  | none =>
      rw [isArguments] at member
      contradiction
  | some arguments =>
      rw [isArguments] at member
      exact (Fragment.partOf_of_mem_arguments member).trans
        (stands.arguments arguments isArguments)

theorem Emission.pointsInto_ofPiece (scope : Scope) {piece : Piece}
    (stands : piece.StandsIn whole) :
    ErrorsAre (PointsInto whole) (ofPiece scope piece) := by
  refine .bind (.mapM fun argument member => ?_) fun _ _ => .ok _
  split
  · exact .ok _
  · next failed =>
      exact .error ((Scope.pointsInto_shift failed).mono (stands.partOf_of_mem member))

theorem pointsInto_readBalanced (scope : Scope) (branches : BranchPair Char)
    (place : Section) (fragment : Fragment) :
    ErrorsAre (PointsInto fragment)
      (readBalanced scope branches place fragment).outcome := by
  simp only [readBalanced, readEmissions, Reading.outcome_bind, Reading.outcome_lift]
  refine .bind (pointsInto_readPieces fun _ => Emission.pointsInto_ofPiece scope)
    fun emissions read =>
    .bind ?_ fun _ _ => .ok _
  have stop_le := stop_le_of_readPieces (fun _ _ => Emission.span_of_ofPiece) read
  exact (endsBy_checkBalance branches place (List.forall_mem_nil _)
    (List.forall_mem_map.mpr stop_le)).mono
    fun _ => .plain

end Pieces

/-! ## Rules -/

theorem pointsInto_evaluateConstant (text : List Char) :
    ErrorsAre (PointsInto ⟨0, text⟩) (evaluateConstant text) :=
  .bind (Scope.pointsInto_compile ..) fun _ _ => .ok _

namespace Production

variable {fragment whole : Fragment} {bound : Nat}

theorem pointsInto_patternSymbol {piece : Piece} (stands : piece.StandsIn whole) :
    ErrorsAre (PointsInto whole) (patternSymbol piece) := by
  refine .bind (.mapM fun argument member => ?_) fun _ _ => .ok _
  have inside := (stands.partOf_of_mem member).stop_le
  unfold readName
  dsimp only
  split
  · exact .ok _
  · exact .error (.plain (.unreadable rfl inside))

theorem pointsInto_readPattern (fragment : Fragment) :
    ErrorsAre (PointsInto fragment) (readPattern fragment).outcome :=
  pointsInto_readPieces fun _ => pointsInto_patternSymbol

theorem pointsInto_readPattern? {found : Option Fragment}
    (inside : ∀ part ∈ found, part.PartOf whole) :
    ErrorsAre (PointsInto whole) (readPattern? found).outcome := by
  cases found with
  | none => exact .ok _
  | some part =>
      exact (pointsInto_readPattern part).mono fun _ points =>
        points.mono (inside part rfl)

theorem stop_le_of_readPattern {pattern : List PatternSymbol}
    (done : (readPattern fragment).outcome = .ok pattern) :
    ∀ symbol ∈ pattern, symbol.span.stop ≤ fragment.span.stop :=
  stop_le_of_readPieces (fun _ _ => span_of_patternSymbol) done

theorem stop_le_of_readPattern? {found : Option Fragment}
    (inside : ∀ part ∈ found, part.PartOf whole) {pattern : List PatternSymbol}
    (done : (readPattern? found).outcome = .ok pattern) :
    ∀ symbol ∈ pattern, symbol.span.stop ≤ whole.span.stop := by
  cases found with
  | none =>
      cases done
      exact nofun
  | some part =>
      intro symbol member
      exact Nat.le_trans (stop_le_of_readPattern done symbol member)
        (inside part rfl).stop_le

theorem endsBy_ofFragment (fragment : Fragment) :
    ErrorsAre (EndsBy fragment.span.stop) (ContextOutline.ofFragment fragment) := by
  have isPlace {wanted : Char} {places : List Nat} {place : Nat}
      (arePlaces : ContextOutline.occurrences wanted fragment.text = places)
      (member : place ∈ places) : fragment.offset + place + 1 ≤ fragment.span.stop := by
    have inside := ContextOutline.lt_length_of_mem_occurrences (arePlaces ▸ member)
    simp only [Fragment.span, Span.stop]
    omega
  unfold ContextOutline.ofFragment
  dsimp only
  split
  · next lefts => exact .error (.unreadable rfl (isPlace lefts (by simp)))
  · next rights _ => exact .error (.unreadable rfl (isPlace rights (by simp)))
  · exact .ok _
  · exact .ok _
  · exact .ok _
  · next lefts rights =>
      split
      · next order =>
          have inside := isPlace lefts (List.mem_singleton_self _)
          refine .error (.unreadable rfl ?_)
          simp only [Span.stop] at inside ⊢
          omega
      · exact .ok _

theorem endsBy_singleTarget {span : Span} (le : span.stop ≤ bound)
    (targets : List PatternSymbol) :
    ErrorsAre (EndsBy bound) (singleTarget span targets) := by
  unfold singleTarget
  split
  · exact .ok _
  · exact .error (.unreadable rfl le)
  · exact .error (.unreadable rfl le)

theorem endsBy_checkBranches (branches : BranchPair Char)
    {left right : List PatternSymbol} {target : PatternSymbol}
    (leftEnds : ∀ symbol ∈ left, symbol.span.stop ≤ bound)
    (targetEnds : target.span.stop ≤ bound)
    (rightEnds : ∀ symbol ∈ right, symbol.span.stop ≤ bound) :
    ErrorsAre (EndsBy bound) (checkBranches branches left target right) := by
  unfold checkBranches
  dsimp only
  split
  · exact .throw (.unreadable rfl targetEnds)
  · split
    · next found =>
        exact .throw (.unreadable rfl (leftEnds _ (List.mem_of_find?_eq_some found)))
    · split
      · next found =>
          have member := List.mem_append.mp (List.mem_of_find?_eq_some found)
          exact .throw (.unreadable rfl (member.elim (leftEnds _) (rightEnds _)))
      · exact endsBy_checkBalance branches _ (List.forall_mem_nil _)
          (List.forall_mem_map.mpr rightEnds)

theorem pointsInto_readContext (branches : BranchPair Char) (fragment : Fragment) :
    ErrorsAre (PointsInto fragment) (readContext branches fragment).outcome := by
  simp only [readContext, Reading.outcome_bind, Reading.outcome_lift]
  apply ErrorsAre.bind ((endsBy_ofFragment fragment).mono fun _ => .plain)
  intro outline isOutline
  have cuts := ContextOutline.cuts_of_ofFragment isOutline
  have target := cuts.target_partOf
  apply ErrorsAre.bind (pointsInto_readPattern? cuts.left_partOf)
  intro left isLeft
  apply ErrorsAre.bind
    ((pointsInto_readPattern _).mono fun _ points => points.mono target)
  intro targets areTargets
  apply ErrorsAre.bind (pointsInto_readPattern? cuts.right_partOf)
  intro right isRight
  apply ErrorsAre.bind ((endsBy_singleTarget target.stop_le targets).mono fun _ => .plain)
  intro single isSingle
  refine .bind (ErrorsAre.mono ?_ fun _ => .plain) fun _ _ => .ok _
  cases eq_of_singleTarget isSingle
  have targetEnds := stop_le_of_readPattern areTargets single (List.mem_singleton_self _)
  exact endsBy_checkBranches branches (stop_le_of_readPattern? cuts.left_partOf isLeft)
    (Nat.le_trans targetEnds target.stop_le)
      (stop_le_of_readPattern? cuts.right_partOf isRight)

theorem stop_le_of_readContext {branches : BranchPair Char}
    {left right : List PatternSymbol} {target : PatternSymbol}
    (done : (readContext branches fragment).outcome = .ok (left, target, right)) :
    ∀ symbol ∈ left ++ target :: right, symbol.span.stop ≤ fragment.span.stop := by
  simp only [readContext, Reading.outcome_bind, Reading.outcome_lift,
    Reading.outcome_pure, bind_eq_ok] at done
  rcases done with
    ⟨outline, isOutline, left, isLeft, targets, areTargets, right, isRight, target,
      isTarget, _, _, equal⟩
  cases equal
  cases eq_of_singleTarget isTarget
  have cuts := ContextOutline.cuts_of_ofFragment isOutline
  intro symbol member
  rcases List.mem_append.mp member with member | member
  · exact stop_le_of_readPattern? cuts.left_partOf isLeft symbol member
  · rcases List.mem_cons.mp member with rfl | member
    · have ends := stop_le_of_readPattern areTargets symbol (List.mem_singleton_self _)
      exact Nat.le_trans ends cuts.target_partOf.stop_le
    · exact stop_le_of_readPattern? cuts.right_partOf isRight symbol member

theorem endsBy_capture {globals known : List String} {pattern : List (String × Span)}
    (ends : ∀ pair ∈ pattern, pair.2.stop ≤ bound) :
    ErrorsAre (EndsBy bound) (capture globals known pattern) := by
  fun_induction capture globals known pattern with
  | case1 => exact .ok _
  | case2 => exact .error (.unreadable rfl (List.forall_mem_cons.mp ends).1)
  | case3 => exact .error (.unreadable rfl (List.forall_mem_cons.mp ends).1)
  | case4 _ _ _ _ _ _ induction => exact induction (List.forall_mem_cons.mp ends).2

theorem endsBy_readProbability {found : Option (List Char × Span)}
    (ends : ∀ announced ∈ found, announced.2.stop ≤ bound) :
    ErrorsAre (EndsBy bound) (readProbability found) := by
  unfold readProbability
  split
  · exact .ok _
  · next inside span =>
      have le : span.stop ≤ bound := ends _ rfl
      split
      · exact .ok _
      · exact .error (.unreadable rfl le)
      · exact .error (.unreadable rfl le)
      · next notUnreadable notInternal failed =>
          -- a constant fails with one of the two errors above
          cases (pointsInto_evaluateConstant inside).of_eq _ failed with
          | plain ends =>
              cases ends with
              | unreadable => exact (notUnreadable _ _ rfl).elim
              | internal => exact (notInternal _ _ rfl).elim
          | quoting => exact (notUnreadable _ _ rfl).elim

theorem pointsInto_readCondition (scope : Scope) {found : Option Fragment}
    (inside : ∀ part ∈ found, part.PartOf whole) :
    ErrorsAre (PointsInto whole) (readCondition scope found) := by
  unfold readCondition
  split
  · exact .ok _
  · next part =>
      have stands := inside part rfl
      split
      · exact .error (.plain (.unreadable rfl stands.stop_le))
      · split
        · exact .ok _
        · next failed => exact .error ((Scope.pointsInto_shift failed).mono stands)

theorem pointsInto_read (globals : List String) (branches : BranchPair Char)
    (text : String) :
    ErrorsAre (PointsInto ⟨0, text.toList⟩) (read globals branches text).outcome := by
  have length : (Fragment.mk 0 text.toList).span.stop = text.length := by
    simp [Fragment.span, Span.stop, String.length_toList]
  simp only [read, Reading.outcome_bind, Reading.outcome_lift]
  apply ErrorsAre.bind
  · split
    · exact .ok _
    · exact .error (.plain (.unreadable rfl (by rw [length, Span.stop, Nat.zero_add])))
  intro outline isOutline
  rcases Outline.cuts_of_ofText? (Outline.ofText?_eq_some isOutline) with ⟨lead, cuts⟩
  have context := cuts.context_partOf
  have ofContext := pointsInto_readContext branches outline.context
  have ofReplacement (scope : Scope) :=
    pointsInto_readBalanced scope branches .replacement
    outline.replacement
  have probabilityEnds : ∀ announced ∈ outline.probability,
      announced.2.stop ≤ (Fragment.mk 0 text.toList).span.stop := by
    rw [length, ← String.length_toList]
    exact cuts.stop_le
  apply ErrorsAre.bind ((endsBy_readProbability probabilityEnds).mono fun _ => .plain)
  intro probability _
  apply ErrorsAre.bind (ofContext.mono fun _ points => points.mono context)
  rintro ⟨left, target, right⟩ isContext
  have ends : ∀ pair ∈ declarations (left ++ target :: right),
      pair.2.stop ≤ outline.context.span.stop := by
    intro pair member
    rcases List.mem_flatMap.mp member with ⟨symbol, isSymbol, isPair⟩
    rcases List.mem_map.mp isPair with ⟨_, _, rfl⟩
    exact stop_le_of_readContext isContext symbol isSymbol
  apply ErrorsAre.bind
    ((endsBy_capture ends).mono fun _ found => .plain (found.mono context.stop_le))
  intro captured _
  apply ErrorsAre.bind ((Scope.endsBy_declare captured globals).mono fun _ => .plain)
  intro scope _
  apply ErrorsAre.bind (pointsInto_readCondition scope cuts.condition_partOf)
  intro condition _
  apply ErrorsAre.bind
    ((ofReplacement scope).mono fun _ points => points.mono cuts.replacement_partOf)
  exact fun _ _ => .ok _

end Production

namespace Error

/-- The error points at no place behind the end of the text, and if it quotes something,
its message quotes exactly what stands in the text at its place. -/
structure Located (error : Error) (text : List Char) : Prop where
  inside : ∀ span ∈ error.spans, span.offset + span.length ≤ text.length
  quotes : ∀ fault span quotation, error = unreadable fault span →
    fault.quotation? = some quotation → span.slice text = quotation.quote ∧
      error.message = faultHeading false span ++
        (quotation.before ++ String.ofList (span.slice text) ++ quotation.after)

theorem PointsInto.isLocated {error : Error} {text : List Char}
    (points : error.PointsInto ⟨0, text⟩) :
    error.Located text := by
  constructor
  · intro span member
    have le := points.stop_le span member
    rwa [Fragment.span, Span.stop, Span.stop, Nat.zero_add] at le
  · rintro fault span quotation rfl quotes
    have slice := points.slice_eq quotes
    refine ⟨slice, ?_⟩
    rw [slice, ← Fault.message_of_quotation? quotes]
    rfl

/-- Every error of compiling an expression, of reading a word to start from and of
reading a rule is located in the whole text. What cutting a text into tokens fails with
always quotes something. -/
theorem located :
    (∀ (scope : Scope) (text : List Char) (error : Error),
      scope.compile text = .error error → error.Located text) ∧
    (∀ (alphabet : Alphabet) (branches : BranchPair Char) (text : String) (error : Error),
      (alphabet.parseInitial branches text).1 = .error error →
      error.Located text.toList) ∧
    (∀ (globals : List String) (branches : BranchPair Char) (text : String)
      (error : Error), (Production.read globals branches text).outcome = .error error →
        error.Located text.toList) ∧
    ∀ (declared : List String) (offset : Nat) (text : List Char) (error : Error),
      Token.scanFrom declared offset text = .error error →
        ∃ fault span quotation, error = unreadable fault span ∧
          fault.quotation? = some quotation := by
  refine ⟨?_, ?_, ?_, ?_⟩
  · intro scope text error failed
    exact ((scope.pointsInto_compile text).of_eq error failed).isLocated
  · intro alphabet branches text error failed
    have points :
        ErrorsAre (PointsInto ⟨0, text.toList⟩) (alphabet.parseInitial branches text).1 :=
      .map (pointsInto_readBalanced ..) _
    exact (points.of_eq error failed).isLocated
  · intro globals branches text error failed
    exact ((Production.pointsInto_read globals branches text).of_eq
      error failed).isLocated
  · intro declared offset text error failed
    rcases Token.exists_quotation_of_scanFrom failed with
      ⟨fault, span, quotation, isError, quotes, _, _⟩
    exact ⟨fault, span, quotation, isError, quotes⟩

def misspeltText : String :=
  "A(x) -> B(g, x + xs)"

private def isMisspelt : Error → Bool
  | unreadable fault span => fault = .unknownName "xs" ∧ span = ⟨17, 2⟩
  | internal .. | probability .. | conflict .. | parameterCount .. | malformedWord ..
  | cancelled .. | configuration .. => false

private def failsMisspelt : Bool :=
  match (Production.read ["g"] ⟨'[', ']'⟩ misspeltText).outcome with
  | .error error => isMisspelt error
  | .ok _ => false

set_option maxRecDepth 100000 in
private theorem failsMisspelt_eq : failsMisspelt = true := by
  decide +kernel

/-- A name in the second argument of a replacement that nobody has declared. -/
theorem located_misspelt :
    ∃ error, (Production.read ["g"] ⟨'[', ']'⟩ misspeltText).outcome = .error error ∧
      error.spans = [⟨17, 2⟩] ∧ error.Located misspeltText.toList ∧
      Span.slice ⟨17, 2⟩ misspeltText.toList = "xs".toList := by
  have fails := failsMisspelt_eq
  unfold failsMisspelt at fails
  split at fails
  · next error failed =>
      cases error with
      | unreadable fault span =>
          rcases of_decide_eq_true fails with ⟨rfl, rfl⟩
          have found := located.2.2.1 _ _ _ _ failed
          exact ⟨_, failed, rfl, found, (found.quotes _ _ _ rfl rfl).1⟩
      | _ => contradiction
  · contradiction

end Error

end LSystems
