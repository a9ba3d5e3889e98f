import LSystems.Proofs.Expr.Groups

/-!
# Parsing is the grammar

A list of tokens is read exactly if it is a group of the grammar, and as the one tree
that the grammar has for it; a text is read exactly if its tokens are what stands in
such a group. Main statement: `parse_iff_derives`.
-/

namespace LSystems

namespace Expr

open GroupItem GroupPart Operator

/-! ## What is read is derived -/

/-- A row of tokens, and the operands and operators that it leaves in a group. -/
inductive Leaves : List TokenKind → List GroupPart → Prop
  | nil : Leaves [] []
  | operand {front expr row parts} : Derives .primary front expr → Leaves row parts →
      Leaves (front ++ row) (.operand expr :: parts)
  | operator {op row parts} : Leaves row parts →
      Leaves (.operator op :: row) (.operator op :: parts)

variable {row front back : List TokenKind} {parts further : List GroupPart} {expr : Expr}

theorem Leaves.append (leaves : Leaves front parts) (behind : Leaves back further) :
    Leaves (front ++ back) (parts ++ further) := by
  induction leaves with
  | nil => exact behind
  | operand derives _ induction =>
      rw [List.append_assoc]
      exact .operand derives induction
  | operator _ induction => exact .operator induction

theorem Leaves.split (leaves : Leaves row (parts ++ further)) :
    ∃ front back, row = front ++ back ∧ Leaves front parts ∧ Leaves back further := by
  induction parts generalizing row with
  | nil => exact ⟨[], row, rfl, .nil, leaves⟩
  | cons head parts induction =>
      cases leaves with
      | @operand own _ _ _ derives leaves =>
          rcases induction leaves with ⟨front, back, rfl, first, second⟩
          exact ⟨own ++ front, back, (List.append_assoc ..).symm,
            .operand derives first, second⟩
      | operator leaves =>
          rcases induction leaves with ⟨front, back, rfl, first, second⟩
          exact ⟨_ :: front, back, rfl, .operator first, second⟩

theorem Leaves.derives_of_signed (leaves : Leaves row parts)
    (signed : Signed parts expr) :
    Derives .unary row expr := by
  cases signed with
  | plain =>
      cases leaves with
      | operand derives nothing =>
          cases nothing
          rw [List.append_nil]
          exact .plain derives
  | negate =>
      cases leaves with
      | operator leaves =>
          cases leaves with
          | operand derives nothing =>
              cases nothing
              rw [List.append_nil]
              exact .negate derives

theorem chain_split {first next : Expr} {op : Operator}
    {before behind : List (Operator × Expr)}
    (isChain : Chain parts first (before ++ (op, next) :: behind)) :
    ∃ front back, parts = front ++ .operator op :: back ∧ Chain front first before ∧
      Chain back next behind := by
  induction before generalizing parts first with
  | nil =>
      cases isChain with
      | more signed further => exact ⟨_, _, rfl, .last signed, further⟩
  | cons member before induction =>
      cases isChain with
      | @more own _ _ _ _ _ signed further =>
          rcases induction further with ⟨front, back, rfl, first, second⟩
          exact ⟨own ++ .operator _ :: front, back, by simp, .more signed first, second⟩

theorem Climbs.derives {bound : Nat} {first : Expr} {rest : List (Operator × Expr)}
    (climbs : Climbs bound first rest expr) (isChain : Chain parts first rest)
    (leaves : Leaves row parts) : Derives (.binary bound) row expr := by
  induction climbs generalizing parts row with
  | single =>
      cases isChain with
      | last signed => exact .single (leaves.derives_of_signed signed)
  | tighter _ induction => exact .tighter (induction isChain leaves)
  | combine _ _ first second =>
      rcases chain_split isChain with ⟨front, back, rfl, isFront, isBack⟩
      rcases leaves.split with ⟨left, right, rfl, onLeft, onRight⟩
      cases onRight with
      | operator onRight =>
          exact .combine (mem_tiers _) (first isFront onLeft) (second isBack onRight)

theorem derives_of_ofGroup {items : List GroupItem} {span : Span}
    (leaves : Leaves row (items.map part)) (made : ofGroup span items = .ok expr) :
    Derives .whole row expr := by
  rcases ofGroup_eq_ok_iff.mp made with ⟨first, rest, isChain, same⟩
  exact (climbs_iff.mpr same).derives isChain leaves

/-- The tokens from the outermost group on to the end of what has been read, when the
rows have been read in the open groups, the innermost first. -/
def opened : List (List TokenKind) → List TokenKind
  | [] => []
  | row :: rows => opened rows ++ .opening :: row

def OpenGroup.Filled (row : List TokenKind) (group : OpenGroup) : Prop :=
  Leaves row (group.items.reverse.map part)

theorem OpenGroup.Filled.add {group : OpenGroup} (filled : group.Filled row)
    {item : GroupItem} (leaves : Leaves front [item.part]) :
    (group.add item).Filled (row ++ front) := by
  have both := Leaves.append filled leaves
  simpa [OpenGroup.Filled, OpenGroup.add] using both

theorem derives_of_readGroups {tokens : List Token} {group : OpenGroup}
    {outer : List OpenGroup} {rows : List (List TokenKind)} (filled : group.Filled row)
    (outside : List.Forall₂ OpenGroup.Filled rows outer)
    (read : readGroups group outer tokens = .ok expr) :
    ∃ inside,
      opened (row :: rows) ++ tokens.map Token.kind = .opening :: (inside ++ [.closing]) ∧
      Derives .whole inside expr := by
  induction tokens generalizing group outer row rows with
  | nil => contradiction
  | cons token tokens induction =>
      rcases token with ⟨kind, span⟩
      -- a token that adds an item to the group adds itself to the row of the group
      have adds : ∀ item : GroupItem, Leaves [kind] [item.part] →
          readGroups (group.add item) outer tokens = .ok expr →
          ∃ inside, opened (row :: rows) ++ kind :: tokens.map Token.kind =
              .opening :: (inside ++ [.closing]) ∧
            Derives .whole inside expr := by
        intro item leaves read
        rcases induction (filled.add leaves) outside read with ⟨inside, same, derives⟩
        refine ⟨inside, ?_, derives⟩
        rw [← same]
        simp [opened]
      cases kind with
      | number value =>
          exact adds (.operand (literal value) span) (.operand (.number value) .nil) read
      | name name =>
          exact adds (.operand (parameter name) span) (.operand (.name name) .nil) read
      | operator op => exact adds _ (.operator .nil) read
      | opening =>
          have empty : OpenGroup.Filled [] ⟨span, []⟩ := .nil
          rcases induction empty (.cons filled outside) read with ⟨inside, same, derives⟩
          exact ⟨inside, by simpa [opened] using same, derives⟩
      | closing =>
          simp only [readGroups] at read
          cases made : ofGroup (group.opened.join span) group.items.reverse with
          | error => simp [made] at read
          | ok inner =>
              have derives := derives_of_ofGroup filled made
              cases outside with
              | nil =>
                  cases tokens with
                  | cons next =>
                      rcases next with ⟨kind, _⟩
                      cases kind <;> simp [made] at read
                  | nil =>
                      simp only [made, Except.ok.injEq] at read
                      exact ⟨row, rfl, read ▸ derives⟩
              | @cons outerRow enclosing outerRows outer outerFilled outside =>
                  simp only [made] at read
                  have leaves := Leaves.operand (.group derives) .nil
                  rcases induction (outerFilled.add leaves) outside read with
                    ⟨inside, same, final⟩
                  refine ⟨inside, ?_, final⟩
                  rw [← same]
                  simp [opened]

theorem derives_of_ofTokens {tokens : List Token} (read : ofTokens tokens = .ok expr) :
    ∃ inside, tokens.map Token.kind = .opening :: (inside ++ [.closing]) ∧
      Derives .whole inside expr := by
  cases tokens with
  | nil => contradiction
  | cons token tokens =>
      rcases token with ⟨kind, span⟩
      cases kind with
      | opening =>
          have empty : OpenGroup.Filled [] ⟨span, []⟩ := .nil
          exact derives_of_readGroups empty .nil read
      | operator => contradiction
      | closing => contradiction
      | number => contradiction
      | name => contradiction

/-! ## What is derived is read -/

/-- Reading a row of tokens adds items with these parts to the open group. -/
def Fills (row : List TokenKind) (parts : List GroupPart) : Prop :=
  ∀ tokens : List Token, tokens.map Token.kind = row →
    ∀ (group : OpenGroup) (outer : List OpenGroup) (rest : List Token),
      ∃ items : List GroupItem, items.map part = parts ∧
        readGroups group outer (tokens ++ rest) =
          readGroups { group with items := items.reverse ++ group.items } outer rest

theorem Fills.append (first : Fills front parts) (second : Fills back further) :
    Fills (front ++ back) (parts ++ further) := by
  intro tokens kinds group outer rest
  rcases List.map_eq_append_iff.mp kinds with ⟨left, right, rfl, isFront, isBack⟩
  rcases first left isFront group outer (right ++ rest) with ⟨items, areParts, readLeft⟩
  rcases second right isBack { group with items := items.reverse ++ group.items }
    outer rest with
    ⟨others, areFurther, readRight⟩
  refine ⟨items ++ others, by rw [List.map_append, areParts, areFurther], ?_⟩
  rw [List.append_assoc, readLeft, readRight]
  simp

theorem fills_operator (op : Operator) : Fills [.operator op] [.operator op] := by
  intro tokens kinds group outer rest
  rcases List.map_eq_singleton_iff.mp kinds with ⟨⟨kind, span⟩, rfl, rfl⟩
  exact ⟨[.operator op span], rfl, rfl⟩

theorem fills_number (value : Float) :
    Fills [.number value] [.operand (literal value)] := by
  intro tokens kinds group outer rest
  rcases List.map_eq_singleton_iff.mp kinds with ⟨⟨kind, span⟩, rfl, rfl⟩
  exact ⟨[.operand (literal value) span], rfl, rfl⟩

theorem fills_name (name : String) : Fills [.name name] [.operand (parameter name)] := by
  intro tokens kinds group outer rest
  rcases List.map_eq_singleton_iff.mp kinds with ⟨⟨kind, span⟩, rfl, rfl⟩
  exact ⟨[.operand (parameter name) span], rfl, rfl⟩

def FillsOn (row : List TokenKind) (expr : Expr) : Rung → Prop
  | .primary => Fills row [.operand expr]
  | .unary => ∃ parts, Fills row parts ∧ Signed parts expr
  | .binary bound => ∃ parts first rest, Fills row parts ∧ Chain parts first rest ∧
    Climbs bound first rest expr

theorem chain_join {first next : Expr} {op : Operator}
    {before behind : List (Operator × Expr)} (isChain : Chain parts first before)
    (isFurther : Chain further next behind) :
    Chain (parts ++ .operator op :: further) first (before ++ (op, next) :: behind) := by
  induction isChain with
  | last signed => exact .more signed isFurther
  | more signed _ induction =>
      rw [List.append_assoc, List.cons_append]
      exact .more signed induction

theorem fills_group {parts : List GroupPart} {first : Expr}
    {rest : List (Operator × Expr)} (fills : Fills row parts)
    (isChain : Chain parts first rest) (climbs : Climbs Operator.levels first rest expr) :
    Fills (.opening :: (row ++ [.closing])) [.operand expr] := by
  intro tokens kinds group outer behind
  rcases List.map_eq_cons_iff.mp kinds with ⟨⟨_, opened⟩, others, rfl, rfl, further⟩
  rcases List.map_eq_append_iff.mp further with ⟨inside, last, rfl, isInside, isLast⟩
  rcases List.map_eq_singleton_iff.mp isLast with ⟨⟨_, closed⟩, rfl, rfl⟩
  rcases fills inside isInside ⟨opened, []⟩ (group :: outer)
    (⟨.closing, closed⟩ :: behind) with
    ⟨items, areParts, read⟩
  have made : ofGroup (opened.join closed) items = .ok expr :=
    ofGroup_eq_ok_iff.mpr ⟨first, rest, areParts ▸ isChain, climbs_iff.mp climbs⟩
  refine ⟨[.operand expr (opened.join closed)], rfl, ?_⟩
  rw [List.cons_append, List.append_assoc, List.singleton_append, readGroups]
  dsimp only
  rw [read, readGroups]
  simp [made, OpenGroup.add]

theorem fills_of_derives {rung : Rung} (derives : Derives rung row expr) :
    FillsOn row expr rung := by
  induction derives with
  | number value => exact fills_number value
  | name name => exact fills_name name
  | group _ induction =>
      rcases induction with ⟨parts, first, rest, fills, isChain, climbs⟩
      exact fills_group fills isChain climbs
  | plain _ induction => exact ⟨_, induction, .plain _⟩
  | negate _ induction =>
      exact ⟨_, (fills_operator .subtract).append induction, .negate _⟩
  | single _ induction =>
      rcases induction with ⟨parts, fills, signed⟩
      exact ⟨parts, _, [], fills, .last signed, .single⟩
  | tighter _ induction =>
      rcases induction with ⟨parts, first, rest, fills, isChain, climbs⟩
      exact ⟨parts, first, rest, fills, isChain, .tighter climbs⟩
  | combine member _ _ onLeft onRight =>
      cases level_of_mem_tiers member
      rcases onLeft with ⟨parts, first, before, fillsLeft, isChain, climbsLeft⟩
      rcases onRight with ⟨further, next, behind, fillsRight, isFurther, climbsRight⟩
      exact ⟨_, _, _, fillsLeft.append ((fills_operator _).append fillsRight),
        chain_join isChain isFurther, .combine climbsLeft climbsRight⟩

theorem ofTokens_of_derives {tokens : List Token}
    (kinds : tokens.map Token.kind = .opening :: (row ++ [.closing]))
    (derives : Derives .whole row expr) : ofTokens tokens = .ok expr := by
  rcases fills_of_derives derives with ⟨parts, first, rest, fills, isChain, climbs⟩
  rcases List.map_eq_cons_iff.mp kinds with ⟨⟨_, opened⟩, others, rfl, rfl, further⟩
  rcases List.map_eq_append_iff.mp further with ⟨inside, last, rfl, isInside, isLast⟩
  rcases List.map_eq_singleton_iff.mp isLast with ⟨⟨_, closed⟩, rfl, rfl⟩
  rcases fills inside isInside ⟨opened, []⟩ [] [⟨.closing, closed⟩] with
    ⟨items, areParts, read⟩
  have made : ofGroup (opened.join closed) items = .ok expr :=
    ofGroup_eq_ok_iff.mpr ⟨first, rest, areParts ▸ isChain, climbs_iff.mp climbs⟩
  rw [ofTokens, read, readGroups]
  simp [made]

theorem ofTokens_eq_ok_iff {tokens : List Token} :
    ofTokens tokens = .ok expr ↔
      ∃ row, tokens.map Token.kind = .opening :: (row ++ [.closing]) ∧
        Derives .whole row expr := by
  constructor
  · exact derives_of_ofTokens
  · rintro ⟨row, kinds, derives⟩
    exact ofTokens_of_derives kinds derives

theorem Derives.unique {left right : Expr} (first : Derives .whole row left)
    (second : Derives .whole row right) : left = right := by
  let tokens : List Token := (.opening :: (row ++ [.closing])).map fun kind =>
    ⟨kind, .zero⟩
  have kinds : tokens.map Token.kind = .opening :: (row ++ [.closing]) := by
    simp [tokens, Function.comp_def]
  have read := ofTokens_of_derives kinds first
  rw [ofTokens_of_derives kinds second] at read
  exact (Except.ok.inj read).symm

/-! ## Parentheses -/

theorem surplusClosing?_of_derives {rung : Rung} (derives : Derives rung row expr)
    {tokens : List Token} (kinds : tokens.map Token.kind = row) (depth : Nat)
    (rest : List Token) :
    surplusClosing? depth (tokens ++ rest) = surplusClosing? depth rest := by
  induction derives generalizing tokens depth rest with
  | number value =>
      rcases List.map_eq_singleton_iff.mp kinds with ⟨⟨_, span⟩, rfl, rfl⟩
      cases depth <;> rfl
  | name name =>
      rcases List.map_eq_singleton_iff.mp kinds with ⟨⟨_, span⟩, rfl, rfl⟩
      cases depth <;> rfl
  | group _ induction =>
      rcases List.map_eq_cons_iff.mp kinds with ⟨⟨_, opened⟩, others, rfl, rfl, further⟩
      rcases List.map_eq_append_iff.mp further with ⟨inside, last, rfl, isInside, isLast⟩
      rcases List.map_eq_singleton_iff.mp isLast with ⟨⟨_, closed⟩, rfl, rfl⟩
      have closes := induction isInside (depth + 1) (⟨.closing, closed⟩ :: rest)
      rw [List.cons_append, List.append_assoc, List.singleton_append]
      cases depth <;> exact closes
  | plain _ induction => exact induction kinds depth rest
  | negate _ induction =>
      rcases List.map_eq_cons_iff.mp kinds with ⟨⟨_, span⟩, others, rfl, rfl, further⟩
      have skips := induction further depth rest
      cases depth <;> exact skips
  | single _ induction => exact induction kinds depth rest
  | tighter _ induction => exact induction kinds depth rest
  | combine _ _ _ onLeft onRight =>
      rcases List.map_eq_append_iff.mp kinds with ⟨left, others, rfl, isLeft, further⟩
      rcases List.map_eq_cons_iff.mp further with ⟨⟨_, span⟩, right, rfl, rfl, isRight⟩
      have skips := onRight isRight depth rest
      rw [List.append_assoc, onLeft isLeft]
      cases depth <;> exact skips

theorem count_closing_le {front back : List Token} {depth : Nat}
    (found : surplusClosing? depth (front ++ back) = none) :
    front.countP (·.kind matches .closing) ≤
      depth + front.countP (·.kind matches .opening) := by
  induction front generalizing depth with
  | nil => exact Nat.zero_le _
  | cons token front induction =>
      rcases token with ⟨kind, span⟩
      cases kind with
      | opening =>
          have further : surplusClosing? (depth + 1) (front ++ back) = none := by
            cases depth <;> exact found
          have counted := induction further
          simp
          omega
      | closing =>
          cases depth with
          | zero => contradiction
          | succ depth =>
              have counted := induction found
              simp
              omega
      | _ =>
          have further : surplusClosing? depth (front ++ back) = none := by
            cases depth <;> exact found
          simpa using induction further

/-! ## Texts -/

variable {declared : List String} {text : List Char}

theorem parse_eq_ok_iff :
    parse declared text = .ok expr ↔
      ∃ tokens, Token.scanFrom declared 0 text = .ok tokens ∧
        Derives .whole (tokens.map Token.kind) expr := by
  constructor
  · intro read
    rcases bind_eq_ok.mp read with ⟨tokens, scanned, read⟩
    dsimp only at read
    split at read
    · contradiction
    · split at read
      · next inner isInner =>
          cases read
          rcases derives_of_ofTokens isInner with ⟨row, kinds, derives⟩
          have same : tokens.map Token.kind = row := by simpa using kinds
          exact ⟨tokens, scanned, same ▸ derives⟩
      · contradiction
  · rintro ⟨tokens, scanned, derives⟩
    have balanced : surplusClosing? 0 tokens = none := by
      have closes := surplusClosing?_of_derives derives rfl 0 []
      rwa [List.append_nil] at closes
    refine bind_eq_ok.mpr ⟨tokens, scanned, ?_⟩
    have kinds : (Token.mk .opening .zero :: tokens ++
        [Token.mk .closing ⟨text.length, 0⟩]).map Token.kind =
          .opening :: (tokens.map Token.kind ++ [.closing]) := by simp
    simp only [balanced, ofTokens_of_derives kinds derives]
    rfl

theorem parse_of_surplus {front back : List Token}
    (scanned : Token.scanFrom declared 0 text = .ok (front ++ back))
    (surplus :
      front.countP (·.kind matches .opening) < front.countP (·.kind matches .closing)) :
    ∃ span, parse declared text = .error (.unreadable .unmatchedClosing span) := by
  cases found : surplusClosing? 0 (front ++ back) with
  | none =>
      have counted := count_closing_le found
      omega
  | some span =>
      refine ⟨span, ?_⟩
      rw [parse, scanned]
      simp only [bind, Except.bind, found]
      rfl

/-- The parser of token lists accepts the groups of the grammar and no other list, each
as the one tree that the grammar has for it. A text is read exactly if its tokens,
without parentheses around them, are an expression of the grammar; none of its
parentheses closes the one that is implied. -/
theorem parse_iff_derives :
    (∀ (tokens : List Token) (expr : Expr), ofTokens tokens = .ok expr ↔
      ∃ row, tokens.map Token.kind = .opening :: (row ++ [.closing]) ∧
        Derives .whole row expr) ∧
    (∀ (row : List TokenKind) (left right : Expr), Derives .whole row left →
      Derives .whole row right → left = right) ∧
    ∀ (declared : List String) (text : List Char),
      (∀ expr, parse declared text = .ok expr ↔
        ∃ tokens, Token.scanFrom declared 0 text = .ok tokens ∧
          Derives .whole (tokens.map Token.kind) expr) ∧
      ∀ front back, Token.scanFrom declared 0 text = .ok (front ++ back) →
        front.countP (·.kind matches .opening) < front.countP (·.kind matches .closing) →
        ∃ span, parse declared text = .error (.unreadable .unmatchedClosing span) := by
  refine ⟨fun _ _ => ofTokens_eq_ok_iff, fun _ _ _ => Derives.unique,
    fun _ _ => ⟨fun _ => ?_, ?_⟩⟩
  · exact parse_eq_ok_iff
  · exact fun _ _ => parse_of_surplus

end Expr

end LSystems
