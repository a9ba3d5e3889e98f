import LSystems.Proofs.Production.Parts

/-!
# Places of errors in expressions

An error of a reader points at no place behind the end of what is read. One that quotes
a piece of the text points at this piece. Main statements:
`Token.exists_quotation_of_scanFrom`, `Scope.pointsInto_compile`.
-/

namespace LSystems

/-! ## Quotations -/

/-- A piece of text that a message quotes, and what the message says around it. -/
structure Quotation where
  before : String
  quote : List Char
  after : String

def Fault.quotation? : Fault → Option Quotation
  | malformedNumber row => some ⟨"Malformed number \"", row.toList, "\""⟩
  | unknownName name =>
    some ⟨"Token \"", name.toList,
      "\" is neither a numeric value, a variable, nor a syntactical token"⟩
  | unknownOperator character => some ⟨"Unrecognized operator '", [character], "'"⟩
  | _ => none

theorem Fault.message_of_quotation? {fault : Fault} {quotation : Quotation}
    (quotes : fault.quotation? = some quotation) :
    fault.message =
      quotation.before ++ String.ofList quotation.quote ++ quotation.after := by
  unfold quotation? at quotes
  split at quotes
  · rw [← Option.some.inj quotes, String.ofList_toList]
    rfl
  · rw [← Option.some.inj quotes, String.ofList_toList]
    rfl
  · rw [← Option.some.inj quotes]
    rfl
  · contradiction

namespace Error

inductive EndsBy (bound : Nat) : Error → Prop
  | unreadable {fault span} :
      fault.quotation? = none → span.stop ≤ bound → EndsBy bound (unreadable fault span)
  | internal {fault span} : span.stop ≤ bound → EndsBy bound (internal fault span)

/-- The error points at a place of the text: at what it quotes, if it quotes anything. -/
inductive PointsInto (whole : Fragment) : Error → Prop
  | plain {error} : error.EndsBy whole.span.stop → PointsInto whole error
  | quoting {fault span quotation} :
      fault.quotation? = some quotation →
        Fragment.PartOf ⟨span.offset, quotation.quote⟩ whole →
      span.length = quotation.quote.length → PointsInto whole (unreadable fault span)

variable {error : Error} {part whole : Fragment}

theorem EndsBy.mono {bound higher : Nat} (ends : error.EndsBy bound)
    (le : bound ≤ higher) :
    error.EndsBy higher := by
  cases ends with
  | unreadable plain stop => exact .unreadable plain (Nat.le_trans stop le)
  | internal stop => exact .internal (Nat.le_trans stop le)

theorem PointsInto.mono (points : error.PointsInto part) (inside : part.PartOf whole) :
    error.PointsInto whole := by
  cases points with
  | plain ends => exact .plain (ends.mono inside.stop_le)
  | quoting quotes stands length => exact .quoting quotes (stands.trans inside) length

theorem PointsInto.shift (points : error.PointsInto whole) (distance : Nat) :
    (error.shift distance).PointsInto ⟨whole.offset + distance, whole.text⟩ := by
  cases points with
  | plain ends =>
      cases ends with
      | unreadable plain le =>
          refine .plain (.unreadable plain ?_)
          simp only [Span.stop, Span.shift, Fragment.span] at le ⊢
          omega
      | internal le =>
          refine .plain (.internal ?_)
          simp only [Span.stop, Span.shift, Fragment.span] at le ⊢
          omega
  | quoting quotes stands length =>
      rcases stands with ⟨front, back, isWhole, starts⟩
      refine .quoting quotes ⟨front, back, isWhole, ?_⟩ length
      dsimp only [Span.shift] at starts ⊢
      omega

theorem PointsInto.stop_le (points : error.PointsInto whole) :
    ∀ span ∈ error.spans, span.stop ≤ whole.span.stop := by
  intro span member
  cases points with
  | plain ends =>
      cases ends with
      | unreadable _ le => exact List.mem_singleton.mp member ▸ le
      | internal le => exact List.mem_singleton.mp member ▸ le
  | quoting _ stands length =>
      rw [List.mem_singleton.mp member]
      have le := stands.stop_le
      simp only [Fragment.span, Span.stop] at le ⊢
      rwa [length]

theorem PointsInto.slice_eq {text : List Char} {fault : Fault} {span : Span}
    {quotation : Quotation} (points : (unreadable fault span).PointsInto ⟨0, text⟩)
    (quotes : fault.quotation? = some quotation) : span.slice text = quotation.quote := by
  cases points with
  | plain ends =>
      cases ends with
      | unreadable plain _ => cases plain.symm.trans quotes
  | quoting alsoQuotes stands length =>
      cases alsoQuotes.symm.trans quotes
      have slice := stands.slice_eq
      rw [Span.slice] at slice ⊢
      rw [length]
      exact slice

end Error

/-! ## Tokens -/

namespace Token

variable {declared : List String} {offset : Nat} {text : List Char}

theorem length_of_mark? {head : Char} {tail : List Char} {kind : TokenKind} {length : Nat}
    (marks : mark? head tail = some (kind, length)) :
    0 < length ∧ length ≤ tail.length + 1 := by
  unfold mark? at marks
  split at marks
  · next isOperator =>
      cases marks
      cases tail with
      | nil => contradiction
      | cons => exact ⟨Nat.two_pos, Nat.le_add_left ..⟩
  · have single : length = 1 := by
      split at marks
      · cases marks
        rfl
      · split at marks
        · cases marks
          rfl
        · split at marks
          · cases marks
            rfl
          · contradiction
    rw [single]
    exact ⟨Nat.one_pos, Nat.le_add_left ..⟩

theorem first_spec {head : Char} {tail : List Char} {outcome : Except Fault TokenKind}
    {length : Nat} (isFirst : first declared head tail = (outcome, length)) :
    0 < length ∧ length ≤ (head :: tail).length ∧ ∀ fault, outcome = .error fault →
      ∃ quotation, fault.quotation? = some quotation ∧ quotation.quote <+: head :: tail ∧
        quotation.quote.length = length := by
  have row {inside : Char → Bool} (isInside : inside head = true) :
      0 < ((head :: tail).takeWhile inside).length ∧
        ((head :: tail).takeWhile inside).length ≤ (head :: tail).length := by
    constructor
    · rw [List.takeWhile_cons_of_pos isInside]
      exact Nat.succ_pos _
    · exact (List.takeWhile_prefix inside).length_le
  have quoted (inside : Char → Bool) :
      (String.ofList ((head :: tail).takeWhile inside)).toList <+: head :: tail ∧
        (String.ofList ((head :: tail).takeWhile inside)).toList.length =
          ((head :: tail).takeWhile inside).length := by
    rw [String.toList_ofList]
    exact ⟨List.takeWhile_prefix inside, rfl⟩
  unfold first at isFirst
  split at isFirst
  · next number =>
      dsimp only at isFirst
      split at isFirst
      · cases isFirst
        exact ⟨(row number).1, (row number).2, nofun⟩
      · cases isFirst
        refine ⟨(row number).1, (row number).2, ?_⟩
        rintro _ ⟨⟩
        exact ⟨_, rfl, quoted inNumber⟩
  · split at isFirst
    · next starts =>
        have continues := row (Text.continuesName_of_startsName starts)
        cases isFirst
        refine ⟨continues.1, continues.2, fun fault isFault => ?_⟩
        split at isFault
        · contradiction
        · cases isFault
          exact ⟨_, rfl, quoted Text.continuesName⟩
    · split at isFirst
      · next marks =>
          cases isFirst
          exact ⟨(length_of_mark? marks).1, (length_of_mark? marks).2, nofun⟩
      · cases isFirst
        refine ⟨Nat.one_pos, Nat.le_add_left .., ?_⟩
        rintro _ ⟨⟩
        exact ⟨_, rfl, List.cons_prefix_cons.mpr ⟨rfl, List.nil_prefix⟩, rfl⟩

theorem partOf_behind_first {head : Char} {tail : List Char}
    {outcome : Except Fault TokenKind} {length : Nat}
    (isFirst : first declared head tail = (outcome, length)) (offset : Nat) :
    Fragment.PartOf ⟨offset + length, tail.drop (length - 1)⟩ ⟨offset, head :: tail⟩ := by
  rcases first_spec isFirst with ⟨positive, inside, _⟩
  have behind := Fragment.partOf_drop inside offset
  rwa [List.drop_cons positive] at behind

theorem stop_le_of_scanFrom {tokens : List Token}
    (scanned : scanFrom declared offset text = .ok tokens) :
    ∀ token ∈ tokens, token.span.stop ≤ offset + text.length := by
  fun_induction scanFrom declared offset text generalizing tokens with
  | case1 =>
      cases scanned
      exact nofun
  | case2 offset head tail _ induction =>
      intro token member
      have le := induction scanned token member
      rw [List.length_cons]
      omega
  | case3 => contradiction
  | case4 => contradiction
  | case5 offset head tail _ kind length isFirst rest further induction =>
      cases scanned
      have behind := (partOf_behind_first isFirst offset).stop_le
      intro token member
      rcases List.mem_cons.mp member with rfl | member
      · exact Nat.add_le_add_left (first_spec isFirst).2.1 offset
      · exact Nat.le_trans (induction further token member) behind

theorem exists_quotation_of_scanFrom {error : Error}
    (failed : scanFrom declared offset text = .error error) :
    ∃ fault span quotation, error = .unreadable fault span ∧
      fault.quotation? = some quotation ∧
      Fragment.PartOf ⟨span.offset, quotation.quote⟩ ⟨offset, text⟩ ∧
      span.length = quotation.quote.length := by
  fun_induction scanFrom declared offset text with
  | case1 => contradiction
  | case2 offset head tail _ induction =>
      rcases induction failed with
        ⟨fault, span, quotation, isError, quotes, stands, length⟩
      have inside := Fragment.partOf_tail offset head tail
      exact ⟨fault, span, quotation, isError, quotes, stands.trans inside, length⟩
  | case3 offset head tail _ fault length isFirst =>
      cases failed
      rcases (first_spec isFirst).2.2 fault rfl with
        ⟨quotation, quotes, isPrefix, isLength⟩
      exact ⟨fault, _, quotation, rfl, quotes,
        Fragment.partOf_of_isPrefix isPrefix offset, isLength.symm⟩
  | case4 offset head tail _ kind length isFirst fault further induction =>
      cases failed
      rcases induction further with
        ⟨fault, span, quotation, isError, quotes, stands, isLength⟩
      exact ⟨fault, span, quotation, isError, quotes,
        stands.trans (partOf_behind_first isFirst offset), isLength⟩
  | case5 => contradiction

theorem pointsInto_scanFrom (declared : List String) (offset : Nat) (text : List Char) :
    ErrorsAre (Error.PointsInto ⟨offset, text⟩) (scanFrom declared offset text) := by
  constructor
  intro error failed
  rcases exists_quotation_of_scanFrom failed with ⟨_, _, _, rfl, quotes, stands, length⟩
  exact .quoting quotes stands length

end Token

/-! ## Groups -/

def GroupItem.span : GroupItem → Span
  | operand _ span | operator _ span => span

def GroupItem.EndBy (bound : Nat) (items : List GroupItem) : Prop :=
  ∀ item ∈ items, item.span.stop ≤ bound

theorem Span.stop_join_le {left right : Span} {bound : Nat} (le : left.stop ≤ bound)
    (alsoLe : right.stop ≤ bound) : (left.join right).stop ≤ bound :=
  stop_join left right ▸ Nat.max_le.mpr ⟨le, alsoLe⟩

namespace GroupItem

variable {bound : Nat} {items : List GroupItem}

theorem stop_le_of_thirdOperator? {before : Nat} {span : Span} (endBy : EndBy bound items)
    (found : thirdOperator? before items = some span) : span.stop ≤ bound := by
  fun_induction thirdOperator? before items with
  | case1 => contradiction
  | case2 _ _ _ _ induction => exact induction (List.forall_mem_cons.mp endBy).2 found
  | case3 =>
      cases found
      exact (List.forall_mem_cons.mp endBy).1
  | case4 _ _ _ _ _ induction => exact induction (List.forall_mem_cons.mp endBy).2 found

theorem stop_cover_le (endBy : EndBy bound items) : (cover items).stop ≤ bound := by
  fun_induction cover items with
  | case1 => exact Nat.zero_le _
  | case2 => exact (List.forall_mem_cons.mp endBy).1
  | case3 => exact (List.forall_mem_cons.mp endBy).1
  | case4 _ _ _ _ induction =>
      rcases List.forall_mem_cons.mp endBy with ⟨first, further⟩
      exact Span.stop_join_le first (induction further)
  | case5 _ _ _ _ induction =>
      rcases List.forall_mem_cons.mp endBy with ⟨first, further⟩
      exact Span.stop_join_le first (induction further)

theorem endBy_of_joinSigns {isSign : Bool} {joined : List GroupItem}
    (endBy : EndBy bound items) (done : joinSigns isSign items = .ok joined) :
    EndBy bound joined := by
  fun_induction joinSigns isSign items generalizing joined with
  | case1 =>
      cases done
      exact endBy
  | case2 _ expr span rest induction =>
      rcases List.forall_mem_cons.mp endBy with ⟨first, further⟩
      rcases bind_eq_ok.mp done with ⟨rest, isRest, isJoined⟩
      cases isJoined
      exact List.forall_mem_cons.mpr ⟨first, induction further isRest⟩
  | case3 isSign op span rest induction =>
      rcases List.forall_mem_cons.mp endBy with ⟨first, further⟩
      rcases bind_eq_ok.mp done with ⟨rest, isRest, isJoined⟩
      have rest := induction further isRest
      split at isJoined
      · cases isJoined
        exact List.forall_mem_cons.mpr ⟨first, rest⟩
      · split at isJoined
        · contradiction
        · split at isJoined
          · cases isJoined
            rcases List.forall_mem_cons.mp rest with ⟨second, rest⟩
            exact List.forall_mem_cons.mpr ⟨Span.stop_join_le first second, rest⟩
          · contradiction

theorem endsBy_joinSigns (isSign : Bool) (endBy : EndBy bound items) :
    ErrorsAre (Error.EndsBy bound) (joinSigns isSign items) := by
  fun_induction joinSigns isSign items with
  | case1 => exact .ok _
  | case2 _ _ _ _ induction =>
      exact .bind (induction (List.forall_mem_cons.mp endBy).2) fun _ _ => .ok _
  | case3 isSign op span rest induction =>
      rcases List.forall_mem_cons.mp endBy with ⟨first, further⟩
      apply ErrorsAre.bind (induction further)
      intro rest _
      split
      · exact .ok _
      · split
        · exact .throw (.unreadable rfl first)
        · split
          · exact .ok _
          · exact .throw (.unreadable rfl first)

end GroupItem

namespace Expr

variable {bound : Nat}

theorem endsBy_ofGroup {group : Span} {items : List GroupItem} (le : group.stop ≤ bound)
    (endBy : GroupItem.EndBy bound items) :
    ErrorsAre (Error.EndsBy bound) (ofGroup group items) := by
  unfold ofGroup
  dsimp only
  split
  · exact .stop (.unreadable rfl le) _
  · split
    · next third =>
        exact .stop (.unreadable rfl (GroupItem.stop_le_of_thirdOperator? endBy third)) _
    · apply ErrorsAre.bind (GroupItem.endsBy_joinSigns true endBy)
      intro joined areJoined
      have endBy := GroupItem.endBy_of_joinSigns endBy areJoined
      split
      · next last => exact .stop (.unreadable rfl (endBy _ (List.mem_of_getLast? last))) _
      · split
        · exact .ok _
        · exact .throw (.internal (GroupItem.stop_cover_le endBy))

structure OpenGroup.EndsBy (bound : Nat) (group : OpenGroup) : Prop where
  opened : group.opened.stop ≤ bound
  items : GroupItem.EndBy bound group.items

theorem OpenGroup.EndsBy.items_reverse {group : OpenGroup} (ends : group.EndsBy bound) :
    GroupItem.EndBy bound group.items.reverse :=
  fun item member => ends.items item (List.mem_reverse.mp member)

theorem OpenGroup.EndsBy.add {group : OpenGroup} (ends : group.EndsBy bound)
    {item : GroupItem} (le : item.span.stop ≤ bound) : (group.add item).EndsBy bound :=
  ⟨ends.opened, List.forall_mem_cons.mpr ⟨le, ends.items⟩⟩

theorem endsBy_readGroups {group : OpenGroup} {outer : List OpenGroup}
    {tokens : List Token} (ends : group.EndsBy bound)
    (outerEnd : ∀ group ∈ outer, group.EndsBy bound)
    (le : ∀ token ∈ tokens, token.span.stop ≤ bound) :
    ErrorsAre (Error.EndsBy bound) (readGroups group outer tokens) := by
  fun_induction readGroups group outer tokens with
  | case1 => exact .error (.unreadable rfl ends.opened)
  | case2 group outer token rest _ induction =>
      rcases List.forall_mem_cons.mp le with ⟨first, further⟩
      exact induction ⟨first, nofun⟩ (List.forall_mem_cons.mpr ⟨ends, outerEnd⟩) further
  | case3 group outer token rest _ span fault failed =>
      rcases List.forall_mem_cons.mp le with ⟨first, further⟩
      have errors :=
        endsBy_ofGroup (Span.stop_join_le ends.opened first) ends.items_reverse
      exact .error (errors.of_eq fault failed)
  | case4 group token rest _ span expr enclosing outer _ induction =>
      rcases List.forall_mem_cons.mp le with ⟨first, further⟩
      rcases List.forall_mem_cons.mp outerEnd with ⟨enclosingEnds, outerEnd⟩
      have joined := Span.stop_join_le ends.opened first
      exact induction (enclosingEnds.add joined) outerEnd further
  | case5 => exact .ok _
  | case6 =>
      have further := (List.forall_mem_cons.mp le).2
      exact .error (.unreadable rfl (List.forall_mem_cons.mp further).1)
  | case7 =>
      have further := (List.forall_mem_cons.mp le).2
      exact .error (.unreadable rfl (List.forall_mem_cons.mp further).1)
  | case8 group outer token rest value _ induction =>
      rcases List.forall_mem_cons.mp le with ⟨first, further⟩
      exact induction (ends.add first) outerEnd further
  | case9 group outer token rest name _ induction =>
      rcases List.forall_mem_cons.mp le with ⟨first, further⟩
      exact induction (ends.add first) outerEnd further
  | case10 group outer token rest op _ induction =>
      rcases List.forall_mem_cons.mp le with ⟨first, further⟩
      exact induction (ends.add first) outerEnd further

theorem endsBy_ofTokens {tokens : List Token}
    (le : ∀ token ∈ tokens, token.span.stop ≤ bound) :
    ErrorsAre (Error.EndsBy bound) (ofTokens tokens) := by
  unfold ofTokens
  split
  · exact .error (.unreadable rfl (Nat.zero_le _))
  · rcases List.forall_mem_cons.mp le with ⟨first, further⟩
    exact endsBy_readGroups ⟨first, nofun⟩ nofun further
  · exact .error (.unreadable rfl (List.forall_mem_cons.mp le).1)

theorem stop_le_of_surplusClosing? {depth : Nat} {tokens : List Token} {span : Span}
    (le : ∀ token ∈ tokens, token.span.stop ≤ bound)
    (found : surplusClosing? depth tokens = some span) : span.stop ≤ bound := by
  fun_induction surplusClosing? depth tokens with
  | case1 => contradiction
  | case2 _ _ _ induction => exact induction (List.forall_mem_cons.mp le).2 found
  | case3 =>
      cases found
      exact (List.forall_mem_cons.mp le).1
  | case4 _ _ _ induction => exact induction (List.forall_mem_cons.mp le).2 found
  | case5 _ _ _ _ _ _ induction => exact induction (List.forall_mem_cons.mp le).2 found

theorem endsBy_widenError {error : Error} (ends : error.EndsBy bound) :
    (widenError bound error).EndsBy bound := by
  cases ends with
  | @unreadable fault span plain le =>
      refine .unreadable plain ?_
      split
      · exact Nat.le_of_eq (Nat.zero_add bound)
      · exact le
  | internal le => exact .internal le

theorem pointsInto_parse (declared : List String) (text : List Char) :
    ErrorsAre (Error.PointsInto ⟨0, text⟩) (parse declared text) := by
  apply ErrorsAre.bind (Token.pointsInto_scanFrom declared 0 text)
  intro tokens scanned
  have whole : (Fragment.mk 0 text).span.stop = text.length := Nat.zero_add _
  have le : ∀ token ∈ tokens, token.span.stop ≤ text.length := by
    intro token member
    have stop := Token.stop_le_of_scanFrom scanned token member
    rwa [Nat.zero_add] at stop
  split
  · next surplus =>
      exact .stop
        (.plain (.unreadable rfl (whole ▸ stop_le_of_surplusClosing? le surplus))) _
  · dsimp only
    split
    · exact .ok _
    · next error failed =>
        have inside :
            ∀ token ∈ ⟨.opening, Span.zero⟩ :: tokens ++ [⟨.closing, ⟨text.length, 0⟩⟩],
            token.span.stop ≤ text.length := by
          intro token member
          rcases List.mem_append.mp member with member | member
          · rcases List.mem_cons.mp member with rfl | member
            · exact Nat.zero_le _
            · exact le token member
          · rw [List.mem_singleton.mp member]
            exact Nat.le_refl _
        have ends := endsBy_widenError ((endsBy_ofTokens inside).of_eq error failed)
        exact .throw (.plain (whole ▸ ends))

end Expr

/-! ## Binding -/

namespace Scope

variable {bound : Nat}

theorem endsBy_resolve (scope : Scope) (expr : Expr) :
    ErrorsAre (Error.EndsBy bound) (scope.resolve expr) := by
  induction expr with
  | literal value => exact .ok _
  | parameter name =>
      unfold resolve
      split
      · exact .ok _
      · exact .error (.unreadable rfl (Nat.zero_le _))
  | negate operand induction => exact .bind induction fun _ _ => .ok _
  | combine operator left right onLeft onRight =>
      exact .bind onLeft fun _ _ => .bind onRight fun _ _ => .ok _

theorem endsBy_bind (scope : Scope) (expr : Expr) :
    ErrorsAre (Error.EndsBy bound) (scope.bind expr) := by
  apply ErrorsAre.bind (endsBy_resolve scope expr)
  intro root _
  split
  · exact .ok _
  · exact .ok _

theorem endsBy_declare (captured globals : List String) :
    ErrorsAre (Error.EndsBy bound) (declare captured globals) := by
  unfold declare
  split
  · exact .error (.unreadable rfl (Nat.zero_le _))
  · exact .ok _

theorem pointsInto_compile (scope : Scope) (text : List Char) :
    ErrorsAre (Error.PointsInto ⟨0, text⟩) (scope.compile text) :=
  .bind (Expr.pointsInto_parse ..) fun _ _ => (endsBy_bind ..).mono fun _ => .plain

theorem pointsInto_shift {scope : Scope} {fragment : Fragment} {error : Error}
    (failed : scope.compile fragment.text = .error error) :
    (error.shift fragment.offset).PointsInto fragment := by
  have points := ((pointsInto_compile ..).of_eq error failed).shift fragment.offset
  rwa [Nat.zero_add] at points

end Scope

end LSystems
