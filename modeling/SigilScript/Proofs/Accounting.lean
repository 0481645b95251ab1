import SigilScript.Proofs.Blocks
import SigilScript.Proofs.Tally.Statement
import SigilScript.Proofs.Verdict

/-! # Every variable is accounted for

Reading takes tokens apart into trees and never drops a variable or keeps one twice: the names of
the variables in an accepted text are the names in its trees. Only what stands in the attributes of
a declaration is no part of a tree, so the account is drawn up for texts whose trees are read
without taking any lexeme as an attribute.
-/

namespace SigilScript

namespace Grammar

/-- The levels of the grammar that leaves every attribute unread. -/
def bare : Nat → Grammar
  | 0 => { empty with attributes := fun rest => ([], rest) }
  | n + 1 => (bare n).step

/-- What is read without attributes has an even tally, at every level. -/
theorem tallies_bare (n : Nat) : (bare n).Tallies := by
  induction n with
  | zero =>
    exact {
      whole := fun _ _ => .fault (List.nil_subset _)
      operation := fun _ _ _ => .fault (List.subset_cons_self ..)
      climb := fun _ _ _ _ tally => tally
      operand := fun _ _ => .fault (List.subset_cons_self ..)
      primary := fun _ _ => .fault (List.subset_cons_self ..)
      chain := fun _ _ _ tally => tally
      items := .refl
      arguments := .refl
      attributes := fun _ => rfl
      clauses := fun _ => .refl
      statements := fun lexemes => by
        rcases lexemes with _ | ⟨lexeme, rest⟩
        · exact .refl []
        · exact .faulty (List.nil_subset _) (List.cons_ne_nil _ _) }
  | succ n ih => exact ih.step

end Grammar

/-- No lexeme of a program is taken as an attribute: the grammar that leaves attributes unread reads
the same trees. -/
def AttributeFree (lexemes : List Lexeme) : Prop :=
  (Grammar.bare lexemes.length).readStatements lexemes = parseBlock lexemes

/-- The variables of an accepted text without attributes are those of its trees, each as often as it
is spelled: as variables of their own, or as the methods that are called by them. -/
theorem variables_accounted {text : List Char} {nodes : List Node}
    (accepted : parseStrict text = .ok nodes)
    (free : AttributeFree (lexemesOf (classifyAll (scan text)))) :
    ∃ tokens, tokenize text = .ok tokens ∧
      Multiset.ofList (tokens.filterMap Token.variableName?) =
        Multiset.ofList (nodes.flatMap Node.variableNames) := by
  obtain ⟨tokens, scanned, rfl, sound⟩ := sound_of_parseStrict accepted
  refine ⟨tokens, tokenize_of_scan scanned, ?_⟩
  rw [scanned, classifyAll_ok, lexemesOf_ok] at free
  have genuine : ∀ lexeme ∈ Context.start.lexemes tokens, lexeme.Genuine := by
    intro lexeme member
    refine ⟨Context.start.classified_lexemes tokens lexeme member, ?_⟩
    refine spelled_of_scan scanned lexeme.token ?_
    rw [← Context.start.map_token_lexemes tokens]
    exact List.mem_map_of_mem member
  have tally := (Grammar.tallies_bare (Context.start.lexemes tokens).length).readStatements
    (Context.start.lexemes tokens)
  rw [AttributeFree] at free
  rw [free, parseBlock_eq_filterMap, ← parseItems_ok] at tally
  have even := tally.even genuine (List.flatMap_eq_nil_iff.mpr sound)
  have names : tokens.filterMap Token.variableName? =
      (Context.start.lexemes tokens).filterMap fun lexeme => lexeme.token.variableName? := by
    rw [← Context.start.map_token_lexemes tokens, List.filterMap_map, Context.map_token_lexemes]
    rfl
  rw [names]
  exact even.trans (add_zero _)

/-- A method that a variable names counts like a variable, and so does a container. -/
theorem variables_accounted_method :
    ∃ tokens, tokenize "$o->$m($a[0]);".toList = .ok tokens ∧
      Multiset.ofList (tokens.filterMap Token.variableName?) = Multiset.ofList ["m", "o", "a"] := by
  obtain ⟨nodes, same⟩ : ∃ nodes : List Node, nodes = [.methodCall (.var .scalar "o") "$m"
    [.access .arrayElement (.var .array "a") (.number "0")]] := ⟨_, rfl⟩
  have accepted : parseStrict "$o->$m($a[0]);".toList = .ok nodes := by
    subst same
    with_unfolding_all rfl
  have free : AttributeFree (lexemesOf (classifyAll (scan "$o->$m($a[0]);".toList))) :=
    calc (Grammar.bare 10).readStatements (lexemesOf (classifyAll (scan "$o->$m($a[0]);".toList)))
        = nodes := by
          subst same
          with_unfolding_all rfl
      _ = parseBlock (lexemesOf (classifyAll (scan "$o->$m($a[0]);".toList))) := by
          subst same
          with_unfolding_all rfl
  have names : nodes.flatMap Node.variableNames = ["m", "o", "a"] := by
    subst same
    have method : spellsVariable "$m" = true ∧ withoutSigil "$m" = "m" := ⟨rfl, rfl⟩
    simp [Node.variableNames_eq, Node.children, Node.variableName?, method]
  rw [← names]
  exact variables_accounted accepted free

end SigilScript
