import SigilScript.Proofs.Layout.Statement
import SigilScript.Proofs.Scan.Order
import SigilScript.Proofs.Verdict

/-! # The first fault

The faults of a tree are listed as its parts are, and the parts mostly stand in the order of the
text. Two constructions leave it: the condition of a modifier comes before the statement that it
modifies, and the fault of a missing colon stands at the question mark, before the branch that is
listed first. So the fault for which a program is refused is the first one in the text, unless it
was listed before one that stands in front of it in one of these two ways.
-/

namespace SigilScript

/-- A fault is listed before another that stands in front of it in the text. -/
inductive Displaced (lexemes : List Lexeme) (fault other : SyntaxFault) : Node → Prop where
  /-- One stands in the condition behind a modifier, the other in what is modified. -/
  | modifier {tree condition body : Node} {keyword : Lexeme}
    (parts : tree.children = [condition, body]) (member : keyword ∈ lexemes)
    (modifies : keyword.isModifier = true) (listed : fault ∈ condition.faults)
    (later : other ∈ body.faults) (before : other.position < keyword.position)
    (behind : keyword.position ≤ fault.position) : Displaced lexemes fault other tree
  /-- One stands in the branch behind a question mark, the other is for its missing colon. -/
  | colon {condition branch : Node} {question : Lexeme} (member : question ∈ lexemes)
    (asks : question.category = .question) (listed : fault ∈ branch.faults)
    (missing : other = ⟨.missingTernaryColon, question.position⟩)
    (behind : question.position < fault.position) :
    Displaced lexemes fault other (.ternary condition branch (.error other))

/-- Two faults that are listed one before the other stand in this order, or a tree inside one of
these displaces them. -/
def InOrder (lexemes : List Lexeme) (nodes : List Node) (fault other : SyntaxFault) : Prop :=
  fault.position ≤ other.position ∨
    ∃ node ∈ nodes, ∃ tree : Node, tree.Inside node ∧ Displaced lexemes fault other tree

variable {lexemes : List Lexeme} {nodes more : List Node} {fault other : SyntaxFault}

theorem Displaced.before {tree : Node} (displaced : Displaced lexemes fault other tree) :
    other.position < fault.position := by
  cases displaced with
  | modifier _ _ _ _ _ before behind => exact before.trans_le behind
  | colon _ _ _ missing behind =>
    subst missing
    exact behind

theorem InOrder.mono (ordered : InOrder lexemes nodes fault other)
    (subset : ∀ node ∈ nodes, node ∈ more) : InOrder lexemes more fault other :=
  ordered.imp_right fun ⟨node, member, tree⟩ => ⟨node, subset node member, tree⟩

theorem InOrder.parent {tree : Node} (ordered : InOrder lexemes tree.children fault other) :
    InOrder lexemes [tree] fault other :=
  ordered.imp_right fun ⟨_, member, part, inside, displaced⟩ =>
    ⟨tree, List.mem_singleton_self tree, part, .child member inside, displaced⟩

theorem InOrder.here {tree : Node} (displaced : Displaced lexemes fault other tree) :
    InOrder lexemes [tree] fault other :=
  .inr ⟨tree, List.mem_singleton_self tree, tree, .here, displaced⟩

/-- Lexemes that stand one behind the other. -/
def InLine (lexemes : List Lexeme) : Prop :=
  lexemes.Pairwise fun first second => first.position < second.position

/-- Faults that are listed for trees over lexemes: each stands at one of these and not behind what
is left, and they stand in order. -/
structure Sorted (all : List Lexeme) (nodes : List Node) (faults : List SyntaxFault)
    (lexemes left : List Lexeme) : Prop where
  places : ∀ fault ∈ faults, (∃ lexeme ∈ lexemes, fault.position = lexeme.position) ∧
    ∀ next ∈ left, fault.position ≤ next.position
  order : faults.Pairwise (InOrder all nodes)

namespace Sorted

variable {all left between : List Lexeme} {faults later : List SyntaxFault}

theorem nothing : Sorted all nodes [] lexemes left :=
  ⟨fun _ listed => absurd listed List.not_mem_nil, .nil⟩

theorem single {cause : SyntaxCause} {lexeme : Lexeme} (member : lexeme ∈ lexemes)
    (before : ∀ next ∈ left, lexeme.position ≤ next.position) :
    Sorted all nodes [⟨cause, lexeme.position⟩] lexemes left := by
  refine ⟨fun fault listed => ?_, List.pairwise_singleton ..⟩
  obtain rfl := List.mem_singleton.mp listed
  exact ⟨⟨lexeme, member, rfl⟩, before⟩

theorem mono (sorted : Sorted all nodes faults lexemes left)
    (subset : ∀ node ∈ nodes, node ∈ more) : Sorted all more faults lexemes left :=
  ⟨sorted.places, sorted.order.imp fun ordered => ordered.mono subset⟩

theorem parent {tree : Node} (sorted : Sorted all tree.children faults lexemes left) :
    Sorted all [tree] faults lexemes left :=
  ⟨sorted.places, sorted.order.imp fun ordered => ordered.parent⟩

/-- The same over more lexemes, where fewer are left. -/
theorem widen {inner : List Lexeme} (sorted : Sorted all nodes faults inner between)
    (given : inner <:+ lexemes) (further : left <:+ between) :
    Sorted all nodes faults lexemes left := by
  refine ⟨fun fault listed => ?_, sorted.order⟩
  obtain ⟨⟨lexeme, member, place⟩, before⟩ := sorted.places fault listed
  exact ⟨⟨lexeme, given.subset member, place⟩,
    fun next member => before next (further.subset member)⟩

/-- A stretch of lexemes with more before and behind. -/
theorem within (before : List Lexeme) {stretch behind : List Lexeme}
    (sorted : Sorted all nodes faults stretch []) (line : InLine (before ++ (stretch ++ behind)))
    (suffix : left <:+ behind) : Sorted all nodes faults (before ++ (stretch ++ behind)) left := by
  refine ⟨fun fault listed => ?_, sorted.order⟩
  obtain ⟨⟨lexeme, member, place⟩, -⟩ := sorted.places fault listed
  refine ⟨⟨lexeme, by simp [member], place⟩, fun next further => ?_⟩
  rw [place]
  exact ((List.pairwise_append.mp (List.pairwise_append.mp line).2.1).2.2 lexeme member next
    (suffix.subset further)).le

theorem append (first : Sorted all nodes faults lexemes left)
    (second : Sorted all nodes later lexemes left)
    (apart : ∀ fault ∈ faults, ∀ other ∈ later, InOrder all nodes fault other) :
    Sorted all nodes (faults ++ later) lexemes left :=
  ⟨fun fault listed => (List.mem_append.mp listed).elim (first.places fault) (second.places fault),
    List.pairwise_append.mpr ⟨first.order, second.order, apart⟩⟩

/-- What stands up to a place is followed by what stands from there on. -/
theorem trans (first : Sorted all nodes faults lexemes between)
    (second : Sorted all more later between left) (given : between <:+ lexemes)
    (further : left <:+ between) : Sorted all (nodes ++ more) (faults ++ later) lexemes left := by
  refine .append
    ((first.widen (List.suffix_refl _) further).mono fun _ => List.mem_append_left more)
    ((second.widen given (List.suffix_refl _)).mono fun _ => List.mem_append_right nodes)
    fun fault listed other behind => .inl ?_
  obtain ⟨⟨lexeme, member, place⟩, -⟩ := second.places other behind
  rw [place]
  exact (first.places fault listed).2 lexeme member

/-- The fault of something that is missing stands behind all others. -/
theorem missing {cause : SyntaxCause} {last : Lexeme} {front : List Lexeme}
    (parts : Sorted all nodes faults (front ++ [last]) []) (line : InLine (front ++ last :: left)) :
    Sorted all (nodes ++ [.error ⟨cause, last.position⟩]) (faults ++ [⟨cause, last.position⟩])
      (front ++ last :: left) left := by
  have behind : ∀ next ∈ left, last.position < next.position := fun next member =>
    List.rel_of_pairwise_cons (List.pairwise_append.mp line).2.1 member
  have before := (List.pairwise_append.mp line).2.2
  have whole : front ++ last :: left = [] ++ ((front ++ [last]) ++ left) := by simp
  rw [whole] at line ⊢
  refine .append ((parts.within [] line (List.suffix_refl _)).mono fun _ => List.mem_append_left _)
    (.single (by simp) fun next member => (behind next member).le)
    fun fault listed other later => .inl ?_
  obtain rfl := List.mem_singleton.mp later
  obtain ⟨⟨lexeme, member, place⟩, -⟩ := parts.places fault listed
  rw [place]
  rcases List.mem_append.mp member with member | same
  · exact (before lexeme member last List.mem_cons_self).le
  · obtain rfl := List.mem_singleton.mp same
    exact le_refl _

/-- The fault of a missing colon stands behind the condition, but before the branch. -/
theorem uncoloned {condition branch : Node} {question : Lexeme} {rest : List Lexeme}
    (asks : question.category = .question) (listed : question ∈ all)
    (first : Sorted all [condition] condition.faults lexemes (question :: rest))
    (second : Sorted all [branch] branch.faults (question :: rest) left)
    (given : question :: rest <:+ lexemes) (line : InLine lexemes)
    (further : left <:+ question :: rest) :
    Sorted all [.ternary condition branch (.error ⟨.missingTernaryColon, question.position⟩)]
      (condition.faults ++ (branch.faults ++ [⟨.missingTernaryColon, question.position⟩]))
      lexemes left := by
  have behind : ∀ next ∈ rest, question.position < next.position := fun next member =>
    List.rel_of_pairwise_cons (line.sublist given.sublist) member
  have parts {part : Node} (member : part ∈ [condition, branch]) {faults : List SyntaxFault}
      {lexemes left : List Lexeme} (sorted : Sorted all [part] faults lexemes left) :
      Sorted all [.ternary condition branch (.error ⟨.missingTernaryColon, question.position⟩)]
        faults lexemes left := by
    refine .parent (sorted.mono fun node same => ?_)
    obtain rfl := List.mem_singleton.mp same
    exact List.mem_append_left [_] member
  have last : Sorted all
      [.ternary condition branch (.error ⟨.missingTernaryColon, question.position⟩)]
      [⟨.missingTernaryColon, question.position⟩] (question :: rest) left :=
    .single List.mem_cons_self fun next member =>
      (List.mem_cons.mp (further.subset member)).elim (fun same => same ▸ le_refl _)
        fun later => (behind next later).le
  have rear := (parts (by simp) second).append last fun fault held other same => ?_
  · refine .append ((parts (by simp) first).widen (List.suffix_refl _) further)
      (rear.widen given (List.suffix_refl _)) fun fault held other later => .inl ?_
    obtain ⟨⟨lexeme, member, place⟩, -⟩ := rear.places other later
    rw [place]
    exact (first.places fault held).2 lexeme member
  · obtain rfl := List.mem_singleton.mp same
    obtain ⟨⟨lexeme, member, place⟩, -⟩ := second.places fault held
    rcases List.mem_cons.mp member with rfl | member
    · exact .inl place.le
    · exact .here (.colon listed asks held rfl (place ▸ behind lexeme member))

/-- The faults of a condition stand behind those of what it modifies. -/
theorem modified {tree condition body : Node} {before after : List Lexeme} {keyword : Lexeme}
    (parts : tree.children = [condition, body]) (modifies : keyword.isModifier = true)
    (listed : keyword ∈ all) (first : Sorted all [condition] condition.faults (keyword :: after) [])
    (second : Sorted all [body] body.faults before [])
    (line : InLine (before ++ keyword :: after)) :
    Sorted all [tree] (condition.faults ++ body.faults) (before ++ keyword :: after) [] := by
  obtain ⟨-, rear, apart⟩ := List.pairwise_append.mp line
  refine .append (.parent ((first.widen (List.suffix_append ..) List.nil_suffix).mono ?_))
    (.parent ((second.within [] line List.nil_suffix).mono ?_)) fun fault held other later => ?_
  · simp [parts]
  · simp [parts]
  · obtain ⟨⟨lexeme, member, place⟩, -⟩ := first.places fault held
    obtain ⟨⟨lexeme', member', place'⟩, -⟩ := second.places other later
    refine .here (.modifier parts listed modifies held later ?_ ?_)
    · rw [place']
      exact apart lexeme' member' keyword List.mem_cons_self
    · rw [place]
      exact (List.mem_cons.mp member).elim (fun same => same ▸ le_refl _)
        fun member => (List.rel_of_pairwise_cons rear member).le

end Sorted

namespace Laid

variable {scope : Scope} {left all : List Lexeme}

/-- The faults of trees that are laid over a part of the lexemes are listed in order. -/
theorem sorted (laid : Laid scope nodes lexemes left) (line : InLine all)
    (part : List.Sublist lexemes all) :
    Sorted all nodes (nodes.flatMap Node.faults) lexemes left := by
  induction laid with
  | refl => exact .nothing
  | plain => exact .nothing
  | trans first second ihFirst ihSecond =>
    have suffix := first.suffix
    have back := ihSecond (suffix.sublist.trans part)
    rw [List.flatMap_append]
    exact (ihFirst part).trans back suffix second.suffix
  | @group _ nodes opener closer inner left partner inside ih =>
    have parts := ih (((List.sublist_append_left ..).trans (List.sublist_cons_self ..)).trans part)
    exact parts.within [opener] (line.sublist part) (List.suffix_cons ..)
  | marked introduction parts attributes ih =>
    have inner := ih ((List.sublist_append_left ..).trans part)
    exact inner.within [] (line.sublist part) (List.suffix_append ..)
  | node reads _ ih =>
    rw [List.flatMap_singleton, Node.faults_of_sound reads.sound]
    exact (ih part).parent
  | @fault cause lexeme front back left behind =>
    refine .single (by simp) fun next member => ?_
    rcases List.mem_cons.mp (behind.subset member) with rfl | later
    · exact le_refl _
    · have rear := (List.pairwise_append.mp (line.sublist part)).2.1
      exact (List.rel_of_pairwise_cons rear later).le
  | @missing nodes cause last front left parts ih =>
    have whole : List.Sublist (front ++ [last]) (front ++ last :: left) :=
      (List.singleton_sublist.mpr List.mem_cons_self).append_left front
    have inner := ih (whole.trans part)
    rw [List.flatMap_append]
    exact inner.missing (line.sublist part)
  | @uncoloned condition branch question lexemes rest left asks first second ihFirst ihSecond =>
    have suffix := first.suffix
    have front := ihFirst part
    have back := ihSecond (suffix.sublist.trans part)
    rw [List.flatMap_singleton] at front back
    have listed := part.subset (suffix.subset List.mem_cons_self)
    have whole := front.uncoloned asks listed back suffix (line.sublist part) second.suffix
    simpa [Node.faults] using whole
  | phrase _ ih => exact ih part
  | lost introduction _ reads parts attributes _ ih =>
    have inner := ih ((List.sublist_append_left ..).trans part)
    rw [List.flatMap_singleton, Node.faults_of_sound reads.sound]
    exact (inner.within [] (line.sublist part) List.nil_suffix).parent
  | @modified tree condition body lexemes cut found _ reads parts first second ihFirst ihSecond =>
    have modifies := cutAtTopLevel?_found found
    have whole := cutAtTopLevel?_whole found
    rw [Cut.whole] at whole
    rw [← whole] at part ⊢
    have front := ihFirst ((List.sublist_append_right ..).trans part)
    have back := ihSecond ((List.sublist_append_left ..).trans part)
    rw [List.flatMap_singleton] at front back
    have listed := part.subset (List.mem_append_right _ List.mem_cons_self)
    rw [List.flatMap_singleton, Node.faults_of_sound reads.sound, parts]
    simpa using Sorted.modified parts modifies listed front back (line.sublist part)
  | terminated ends laid ih =>
    have inner := ih ((List.sublist_append_left ..).trans part)
    exact inner.within [] (line.sublist part) List.nil_suffix
  | @statement nodes more lexemes first others ihFirst ihOthers =>
    have split := List.take_append_drop (Boundary.start.extent lexemes) lexemes
    have front := ihFirst ((List.take_sublist ..).trans part)
    have back := ihOthers ((List.drop_sublist ..).trans part)
    rw [← split] at part
    have whole := (front.within [] (line.sublist part) (List.suffix_refl _)).trans back
      (List.suffix_append ..) List.nil_suffix
    rw [List.nil_append, split] at whole
    rwa [List.flatMap_append]

end Laid

/-- The faults of a text without scan faults are listed in order. -/
theorem faults_inOrder {text : List Char} {tokens : List Token}
    (scanned : scan text = tokens.map .ok) :
    ((parse text).flatMap Node.faults).Pairwise
      (InOrder (lexemesOf (classifyAll (scan text))) (parse text)) := by
  have same : classifyAll (scan text) = (Context.start.lexemes tokens).map .ok := by
    rw [scanned, classifyAll_ok]
  rw [parse, same, lexemesOf_ok]
  exact ((laid_parseItems _).sorted (sorted_lexemes scanned) (List.Sublist.refl _)).order

/-- The fault for which a text is refused is one of those inside its trees, and it is the first of
them in the text but for those that stand in front of it in a displaced tree. -/
theorem before_refused_iff {text : List Char} {fault : SyntaxFault}
    (refused : parseStrict text = .error (.tree fault)) :
    (∃ node ∈ parse text, fault ∈ node.faults) ∧
      ∀ other, (∃ node ∈ parse text, other ∈ node.faults) →
        (other.position < fault.position ↔ ∃ node ∈ parse text, ∃ tree : Node, tree.Inside node ∧
          Displaced (lexemesOf (classifyAll (scan text))) fault other tree) := by
  obtain ⟨⟨tokens, scanned⟩, front, node, back, later, trees, sound, faults⟩ :=
    ((parseStrict_agrees text).2.2.2 fault).mp refused
  have listed : (parse text).flatMap Node.faults =
      fault :: (later ++ back.flatMap Node.faults) := by
    rw [trees, List.flatMap_append, List.flatMap_cons, faults, List.flatMap_eq_nil_iff.mpr sound]
    rfl
  have ordered := faults_inOrder scanned
  rw [listed] at ordered
  refine ⟨⟨node, by simp [trees], by simp [faults]⟩, fun other member => ⟨fun before => ?_, ?_⟩⟩
  · have member : other ∈ fault :: (later ++ back.flatMap Node.faults) := by
      rw [← listed]
      exact List.mem_flatMap.mpr member
    rcases List.mem_cons.mp member with rfl | member
    · exact absurd before (lt_irrefl _)
    · exact (List.rel_of_pairwise_cons ordered member).resolve_left before.not_ge
  · rintro ⟨_, _, _, _, displaced⟩
    exact displaced.before

/-- A number too many behind the modifier is reported before one that stands in front of it. -/
theorem before_refused_iff_modifier :
    parseStrict "1 2 if 3 4;".toList = .error (.tree ⟨.unexpected "4", ⟨1, 10⟩⟩) ∧
      ∃ node ∈ parse "1 2 if 3 4;".toList, ∃ tree : Node, tree.Inside node ∧
        Displaced (lexemesOf (classifyAll (scan "1 2 if 3 4;".toList)))
          ⟨.unexpected "4", ⟨1, 10⟩⟩ ⟨.unexpected "2", ⟨1, 3⟩⟩ tree := by
  have refused : parseStrict "1 2 if 3 4;".toList =
      .error (.tree ⟨.unexpected "4", ⟨1, 10⟩⟩) := by
    with_unfolding_all rfl
  have trees : parse "1 2 if 3 4;".toList = [.conditionalOf .affirmed
      (.error ⟨.unexpected "4", ⟨1, 10⟩⟩) [.error ⟨.unexpected "2", ⟨1, 3⟩⟩]] := by
    with_unfolding_all rfl
  refine ⟨refused, ((before_refused_iff refused).2 ⟨.unexpected "2", ⟨1, 3⟩⟩ ?_).mp
    (Position.lt_iff.mpr (.inr (by decide)))⟩
  rw [trees]
  exact ⟨_, List.mem_singleton_self _, by decide⟩

end SigilScript
