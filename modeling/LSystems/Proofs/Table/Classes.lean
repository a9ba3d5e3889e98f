import LSystems.Proofs.Letters

/-!
# Classes of productions

The classes that productions are sorted into hold productions with one signature each,
and every rule of a table is made of one class.
-/

namespace LSystems

namespace SignatureClass

variable {signature : Production → Signature} {productions : List Production}

def Sound (signature : Production → Signature) (productions : List Production)
    (group : SignatureClass) : Prop :=
  ∀ member ∈ group.members, productions[member.source]? = some member.production ∧
    signature member.production = group.signature

theorem Sound.insert {groups : List SignatureClass} {member : Member}
    (sound : ∀ group ∈ groups, group.Sound signature productions)
    (found : productions[member.source]? = some member.production) :
    ∀ group ∈ SignatureClass.insert (signature member.production) member groups,
      group.Sound signature productions := by
  induction groups with
  | nil =>
      intro group isGroup other isOther
      obtain rfl := List.mem_singleton.mp isGroup
      obtain rfl := List.mem_singleton.mp isOther
      exact ⟨found, rfl⟩
  | cons head rest induction =>
      obtain ⟨headSound, restSound⟩ := List.forall_mem_cons.mp sound
      rw [SignatureClass.insert]
      split
      · next same =>
          refine List.forall_mem_cons.mpr ⟨?_, restSound⟩
          intro other isOther
          rw [members, ← List.cons_append] at isOther
          rcases List.mem_append.mp isOther with isOther | isOther
          · exact headSound other isOther
          · obtain rfl := List.mem_singleton.mp isOther
            exact ⟨found, same.symm⟩
      · exact List.forall_mem_cons.mpr ⟨headSound, induction restSound⟩

theorem sound_of_mem_ofProductions (signature : Production → Signature)
    (productions : List Production) :
    ∀ group ∈ ofProductions signature productions, group.Sound signature productions := by
  refine List.foldlRecOn (motive := fun groups => ∀ group ∈ groups,
    Sound signature productions group) productions.zipIdx _ ?_ ?_
  · intro group member
    contradiction
  rintro groups sound ⟨production, source⟩ found
  have isMember : productions[(Member.mk source production).source]? = some production :=
    List.mem_zipIdx_iff_getElem?.mp found
  exact Sound.insert sound isMember

end SignatureClass

namespace RuleTable

variable {settings : TableSettings} {globals : List String} {code : Char → Symbol}
  {productions : List Production} {table : RuleTable}

def classes (settings : TableSettings) (code : Char → Symbol)
    (productions : List Production) :
    List SignatureClass :=
  SignatureClass.ofProductions (Production.signature code settings.branches) productions

theorem eq_of_ofProductions
    (accepted : ofProductions settings globals code productions = .ok table) :
    table.rules = (classes settings code productions).zipIdx.map (fun (group, id) =>
      group.rule code id) ∧
    table.ranked = rank table.rules ∧ table.globals = globals ∧
    table.settings = settings := by
  simp only [ofProductions, bind_eq_ok, pure_eq_ok] at accepted
  obtain ⟨_, _, rfl⟩ := accepted
  exact ⟨rfl, rfl, rfl, rfl⟩

theorem exists_class_of_mem_rules
    (accepted : ofProductions settings globals code productions = .ok table) {rule : Rule}
    (isRule : rule ∈ table.rules) :
    ∃ group : SignatureClass, (classes settings code productions)[rule.id]? = some group ∧
      group.Sound (Production.signature code settings.branches) productions ∧
      rule = group.rule code rule.id := by
  rw [(eq_of_ofProductions accepted).1] at isRule
  obtain ⟨⟨group, id⟩, isClass, rfl⟩ := List.mem_map.mp isRule
  exact ⟨group, List.mem_zipIdx_iff_getElem?.mp isClass,
    SignatureClass.sound_of_mem_ofProductions _ _ group
      (List.fst_mem_of_mem_zipIdx isClass), rfl⟩

theorem getElem?_rules
    (accepted : ofProductions settings globals code productions = .ok table) {rule : Rule}
    (isRule : rule ∈ table.rules) : table.rules[rule.id]? = some rule := by
  obtain ⟨group, isClass, _, isGroup⟩ := exists_class_of_mem_rules accepted isRule
  rw [(eq_of_ofProductions accepted).1, List.getElem?_map, List.getElem?_zipIdx, isClass]
  simpa using isGroup.symm

theorem mem_ranked_iff
    (accepted : ofProductions settings globals code productions = .ok table)
    {rule : Rule} : rule ∈ table.ranked ↔ rule ∈ table.rules := by
  rw [(eq_of_ofProductions accepted).2.1, rank, List.mem_mergeSort]

end RuleTable

theorem Alphabet.exists_productions_of_compileTable {alphabet final : Alphabet}
    {branches : BranchPair Char} {ignored : SymbolSet} {tolerance : Float}
    {globals texts : List String} {table : RuleTable}
    (accepted : alphabet.compileTable branches ignored tolerance globals texts =
      (.ok table, final)) :
    ∃ productions,
      List.Forall₂ (fun text production =>
        (Production.read globals branches text).outcome = .ok production)
          texts productions ∧
      (∀ production ∈ productions,
        ∀ letter ∈ production.letters, letter ∈ final.letters) ∧
      RuleTable.ofProductions ⟨final.codes branches, ignored, tolerance⟩
        globals final.code
        productions = .ok table := by
  simp only [compileTable, take, Prod.mk.injEq] at accepted
  obtain ⟨accepted, rfl⟩ := accepted
  obtain ⟨productions, areRead, accepted⟩ := bind_eq_ok.mp accepted
  refine ⟨productions, Production.forall₂_of_readAll areRead, ?_, accepted⟩
  intro production member letter isLetter
  apply mem_internAll_self
  rw [Production.letters_readAll areRead]
  exact List.mem_flatMap.mpr ⟨production, member, isLetter⟩

theorem Alphabet.branches_of_compileTable {alphabet final : Alphabet}
    {branches : BranchPair Char} {ignored : SymbolSet} {tolerance : Float}
    {globals texts : List String} {table : RuleTable}
    (accepted : alphabet.compileTable branches ignored tolerance globals texts =
      (.ok table, final)) : table.settings.branches = final.codes branches := by
  obtain ⟨productions, _, _, joined⟩ := exists_productions_of_compileTable accepted
  rw [(RuleTable.eq_of_ofProductions joined).2.2.2]

end LSystems
