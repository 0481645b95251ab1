import SigilScript.Proofs.Batches
import SigilScript.Proofs.Layout.Statement
import SigilScript.Proofs.Node.Faults

/-! # The places of faults

A fault stands at a lexeme of the statement its tree was read from: at the lexeme that was found,
at the one behind which something is missing, or at the opener whose partner is. Where a scan fault
takes the place of a tree, it stands where it was met. So a fault never stands in another
statement, nor in a place where there is no item.
-/

namespace SigilScript

/-- Every fault inside the trees stands at one of the lexemes. -/
def FaultsAmong (nodes : List Node) (lexemes : List Lexeme) : Prop :=
  ∀ node ∈ nodes, ∀ fault ∈ node.faults, ∃ lexeme ∈ lexemes, fault.position = lexeme.position

namespace FaultsAmong

variable {nodes more : List Node} {tree : Node} {lexemes inner : List Lexeme}

theorem nil : FaultsAmong [] lexemes := fun _ member => absurd member List.not_mem_nil

theorem single {cause : SyntaxCause} {lexeme : Lexeme} (member : lexeme ∈ lexemes) :
    FaultsAmong [.error ⟨cause, lexeme.position⟩] lexemes := by
  intro node alone fault listed
  obtain rfl := List.mem_singleton.mp alone
  obtain rfl := List.mem_singleton.mp listed
  exact ⟨lexeme, member, rfl⟩

theorem mono (among : FaultsAmong nodes inner) (subset : inner ⊆ lexemes) :
    FaultsAmong nodes lexemes := by
  intro node member fault listed
  obtain ⟨lexeme, part, place⟩ := among node member fault listed
  exact ⟨lexeme, subset part, place⟩

theorem append (first : FaultsAmong nodes lexemes) (second : FaultsAmong more lexemes) :
    FaultsAmong (nodes ++ more) lexemes := by
  intro node member
  rcases List.mem_append.mp member with member | member
  · exact first node member
  · exact second node member

/-- A tree that is no fault itself lists what its parts list. -/
theorem parent (sound : tree.isError = false) (parts : FaultsAmong tree.children lexemes) :
    FaultsAmong [tree] lexemes := by
  intro node member fault listed
  obtain rfl := List.mem_singleton.mp member
  rcases Node.mem_faults.mp listed with rfl | ⟨child, part, listed⟩
  · contradiction
  · exact parts child part fault listed

end FaultsAmong

/-- The faults of trees that are laid over lexemes stand at these lexemes. -/
theorem Laid.faultsAmong {scope : Scope} {nodes : List Node} {lexemes left : List Lexeme}
    (laid : Laid scope nodes lexemes left) : FaultsAmong nodes lexemes := by
  induction laid with
  | refl => exact .nil
  | plain => exact .nil
  | trans first _ ihFirst ihSecond => exact ihFirst.append (ihSecond.mono first.suffix.subset)
  | group _ _ ih => exact ih.mono (List.subset_cons_of_subset _ (List.subset_append_left ..))
  | marked _ _ _ ih => exact ih.mono (List.subset_append_left ..)
  | node reads _ ih => exact ih.parent reads.sound
  | fault front => exact .single (List.mem_append_right _ List.mem_cons_self)
  | @missing _ _ last front left _ ih =>
    have whole : front ++ [last] ⊆ front ++ last :: left :=
      List.append_subset.mpr ⟨List.subset_append_left .., fun _ => by simp +contextual⟩
    exact (ih.mono whole).append (.single (by simp))
  | @uncoloned condition branch question _ _ _ _ first _ ihCondition ihBranch =>
    have within := first.suffix.subset
    have parts := ihCondition.append (ihBranch.mono within)
    exact .parent rfl (parts.append (.single (within List.mem_cons_self)))
  | phrase _ ih => exact ih
  | lost _ _ reads _ _ _ ih => exact (ih.parent reads.sound).mono (List.subset_append_left ..)
  | @modified tree condition body _ cut found _ reads parts _ _ ihCondition ihBody =>
    have sound := reads.sound
    rw [← cutAtTopLevel?_whole found]
    refine .parent sound ?_
    rw [parts]
    exact (ihCondition.mono (List.subset_append_right ..)).append
      (ihBody.mono (List.subset_append_left ..))
  | terminated _ _ ih => exact ih.mono (List.subset_append_left ..)
  | statement _ _ ihFirst ihOthers =>
    exact (ihFirst.mono (List.take_subset ..)).append (ihOthers.mono (List.drop_subset ..))

/-- The tree of a statement is laid over its lexemes. -/
theorem laid_parseStatement (lexemes : List Lexeme) :
    Laid .statement (parseStatement lexemes).toList lexemes [] := by
  rw [parseStatement_eq]
  exact (Grammar.lays_full lexemes.length).readStatement Grammar.consumes_full lexemes
    (Nat.le_refl _)

/-! ## Items -/

/-- The place of an item: that of its lexeme, or of its fault. -/
def Classified.position : Classified → Position
  | .ok lexeme => lexeme.position
  | .error fault => fault.position

/-- The tree of the batch of this number, if it has one. -/
def treeAt (items : List Classified) (n : Nat) : Option Node :=
  nodeOf? (contentOf (batchAt items n))

theorem mem_lexemesOf {items : List Classified} {lexeme : Lexeme} :
    lexeme ∈ lexemesOf items ↔ .ok lexeme ∈ items := by
  induction items with
  | nil => simp
  | cons item items ih => cases item <;> simp [ih]

theorem mem_faultsOf {items : List Classified} {fault : ScanFault} :
    fault ∈ faultsOf items ↔ .error fault ∈ items := by
  induction items with
  | nil => simp
  | cons item items ih => cases item <;> simp [ih]

/-- A batch is a part of the items. -/
theorem batchAt_subset (items : List Classified) (n : Nat) : batchAt items n ⊆ items := by
  have whole := flatMap_batchAt items (n + 1)
  rw [List.range_succ, List.flatMap_append, List.flatMap_singleton] at whole
  conv_rhs => rw [← whole]
  exact List.subset_append_of_subset_left _ (List.subset_append_right ..)

/-- The faults of a batch stand where it has an item. -/
theorem treeAt_places {items : List Classified} {n : Nat} {tree : Node}
    (read : treeAt items n = some tree) {fault : SyntaxFault}
    (inside : (Node.error fault).Inside tree) :
    (∃ met ∈ faultsOf (batchAt items n), fault = met.inTree) ∨
      ∃ lexeme ∈ lexemesOf (batchAt items n), fault.position = lexeme.position := by
  have listed := Node.mem_faults_iff_inside.mpr inside
  rcases met : faultsOf (batchAt items n) with _ | ⟨first, later⟩
  · simp only [treeAt, contentOf, met, nodeOf?] at read
    have among := (laid_parseStatement (lexemesOf (batchAt items n))).faultsAmong tree
    exact .inr (among (Option.mem_toList.mpr read) fault listed)
  · simp only [treeAt, contentOf, met, nodeOf?] at read
    obtain rfl := Option.some.inj read
    obtain rfl := List.mem_singleton.mp listed
    exact .inl ⟨first, List.mem_cons_self, rfl⟩

/-- Every fault stands in its own statement. The trees of a stream are those of its batches, whose
lexemes are the statements of the stream; a fault anywhere inside the tree of a batch is a scan
fault met in the batch, or stands at a lexeme of its statement. So no fault stands in a place where
there is no item. -/
theorem faults_stand_inside (items : List Classified) :
    parseItems items = (List.range items.length).filterMap (treeAt items) ∧
    (∀ n tree fault, treeAt items n = some tree → (Node.error fault).Inside tree →
      (∃ met ∈ faultsOf (batchAt items n), fault = met.inTree) ∨
        ∃ lexeme ∈ (splitStatements (lexemesOf items)).getD n [],
          fault.position = lexeme.position) ∧
    ∀ place, (∀ item ∈ items, item.position ≠ place) →
      ∀ tree ∈ parseItems items, ∀ fault, (Node.error fault).Inside tree →
        fault.position ≠ place := by
  have trees : parseItems items = (List.range items.length).filterMap (treeAt items) :=
    parseItems_eq_batches (Nat.le_refl _)
  refine ⟨trees, fun n tree fault read inside => ?_, fun place free tree member fault inside => ?_⟩
  · rw [← lexemesOf_batchAt]
    exact treeAt_places read inside
  · rw [trees] at member
    obtain ⟨n, -, read⟩ := List.mem_filterMap.mp member
    rcases treeAt_places read inside with ⟨met, among, rfl⟩ | ⟨lexeme, among, stands⟩
    · exact free (.error met) (batchAt_subset items n (mem_faultsOf.mp among))
    · rw [stands]
      exact free (.ok lexeme) (batchAt_subset items n (mem_lexemesOf.mp among))

/-- Both numbers too many of a modified statement are at fault where they stand, and nothing is at
fault in front of the first line. -/
theorem faults_stand_inside_modifier :
    treeAt (classifyAll (scan "1 2 if 3 4;".toList)) 0 = some (.conditionalOf .affirmed
        (.error ⟨.unexpected "4", ⟨1, 10⟩⟩) [.error ⟨.unexpected "2", ⟨1, 3⟩⟩]) ∧
      (∃ lexeme ∈ (splitStatements (lexemesOf (classifyAll (scan "1 2 if 3 4;".toList)))).getD 0 [],
        lexeme.position = ⟨1, 3⟩) ∧
      ∀ tree ∈ parse "1 2 if 3 4;".toList, ∀ fault, (Node.error fault).Inside tree →
        fault.position ≠ ⟨0, 0⟩ := by
  have items := faults_stand_inside (classifyAll (scan "1 2 if 3 4;".toList))
  have read : treeAt (classifyAll (scan "1 2 if 3 4;".toList)) 0 = some (.conditionalOf .affirmed
      (.error ⟨.unexpected "4", ⟨1, 10⟩⟩) [.error ⟨.unexpected "2", ⟨1, 3⟩⟩]) := by
    with_unfolding_all rfl
  refine ⟨read, ?_, items.2.2 ⟨0, 0⟩ (by decide +kernel)⟩
  have inside : (Node.error ⟨.unexpected "2", ⟨1, 3⟩⟩).Inside (.conditionalOf .affirmed
      (.error ⟨.unexpected "4", ⟨1, 10⟩⟩) [.error ⟨.unexpected "2", ⟨1, 3⟩⟩]) :=
    .child (List.mem_cons_of_mem _ List.mem_cons_self) .here
  rcases items.2.1 0 _ _ read inside with ⟨met, _, same⟩ | ⟨lexeme, among, place⟩
  · simp [ScanFault.inTree] at same
  · exact ⟨lexeme, among, place.symm⟩

end SigilScript
