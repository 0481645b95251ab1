import SigilScript.Proofs.Scan.Bodies

/-! # Escapes in literals

A plain quote decodes its escapes on the way to its end. A delimited literal finds its end first,
which drops the backslash before a delimiter, and decodes afterwards what is left. What the first
pass leaves is made of whole escapes, so the second takes none of them apart: between quotes both
come to the same text, and between any delimiters a text comes back from each of its spellings.
-/

namespace SigilScript

variable {quote opener closer c : Char} {text spelling rest : List Char}

/-! ## One pass and two -/

theorem decodeEscapes_plain (interpolated : Bool) (plain : c ≠ '\\') (text : List Char) :
    decodeEscapes interpolated (c :: text) = c :: decodeEscapes interpolated text := by
  rw [decodeEscapes]
  intro escaped more same
  exact absurd same plain

/-- The same body with the escapes decoded that it still holds. -/
def Body.decoded (interpolated : Bool) (body : Body) : Body :=
  ⟨decodeEscapes interpolated body.text, body.length⟩

/-- What the first pass leaves of an escape is decoded as the escape is. -/
theorem decodeEscapes_kept (plain : quote ≠ '\\') (escaped : Char) (text : List Char) :
    decodeEscapes (quote = '"') ((if escaped = quote then [escaped] else ['\\', escaped]) ++ text) =
      (if quote = '"' then doubleQuotedEscape escaped else singleQuotedEscape quote escaped) ++
        decodeEscapes (quote = '"') text := by
  by_cases same : escaped = quote
  · subst same
    rw [if_pos rfl, List.singleton_append, decodeEscapes_plain _ plain]
    by_cases double : escaped = '"'
    · subst double
      rfl
    · simp [double, singleQuotedEscape]
  · rw [if_neg same, List.cons_append, List.singleton_append, decodeEscapes]
    by_cases double : quote = '"'
    · simp [double]
    · simp [double, singleQuotedEscape, same]

/-- A quote holds what a literal between two such quotes is decoded to. -/
theorem quotedBody?_eq (plain : quote ≠ '\\') (text : List Char) :
    quotedBody? quote text =
      (delimitedBody? quote quote false 0 text).map (Body.decoded (quote = '"')) := by
  fun_induction quotedBody? quote text with
  | case1 => rfl
  | case2 => rfl
  | case3 escaped rest decoded ih =>
    have kept := decodeEscapes_kept plain escaped
    simp only [delimitedBody?, ih, Option.map_map, Bool.or_self, Bool.not_false, Bool.and_true,
      decide_eq_true_eq]
    congr 1
    funext body
    simp only [Function.comp_apply, Body.push, Body.decoded, kept, decoded]
  | case4 rest single escape =>
    rw [delimitedBody?_plain _ _ _ _ plain, if_pos rfl, if_pos rfl]
    rfl
  | case5 c rest single escape other ih =>
    have noBackslash := plain_of_alone single escape
    rw [delimitedBody?_plain _ _ _ _ noBackslash, if_neg other, if_neg other, ih, Option.map_map,
      Option.map_map]
    congr 1
    funext body
    simp only [Function.comp_apply, Body.push, Body.decoded, List.singleton_append,
      decodeEscapes_plain _ noBackslash]

/-! ## Spellings of a text -/

/-- How a text can be spelled between delimiters: a backslash is doubled, a delimiter has a
backslash in front or, where the delimiters differ, belongs to a pair that encloses such a spelling,
and every other character stands for itself. -/
inductive SpelledBetween (opener closer : Char) : List Char → List Char → Prop where
  | nil : SpelledBetween opener closer [] []
  | backslash {text spelling : List Char} (further : SpelledBetween opener closer text spelling) :
    SpelledBetween opener closer ('\\' :: text) ('\\' :: '\\' :: spelling)
  | escaped {c : Char} {text spelling : List Char} (delimits : c = opener ∨ c = closer)
    (further : SpelledBetween opener closer text spelling) :
    SpelledBetween opener closer (c :: text) ('\\' :: c :: spelling)
  | pair {enclosed text within spelling : List Char} (paired : opener ≠ closer)
    (inner : SpelledBetween opener closer enclosed within)
    (further : SpelledBetween opener closer text spelling) :
    SpelledBetween opener closer (opener :: (enclosed ++ closer :: text))
      (opener :: (within ++ closer :: spelling))
  | plain {c : Char} {text spelling : List Char} (noBackslash : c ≠ '\\')
    (noDelimiter : c ≠ opener ∧ c ≠ closer)
    (further : SpelledBetween opener closer text spelling) :
    SpelledBetween opener closer (c :: text) (c :: spelling)

/-- A text with its backslashes doubled. -/
def doubled (text : List Char) : List Char :=
  text.flatMap fun c => if c = '\\' then ['\\', '\\'] else [c]

theorem doubled_cons (c : Char) (text : List Char) :
    doubled (c :: text) = (if c = '\\' then ['\\', '\\'] else [c]) ++ doubled text :=
  List.flatMap_cons

theorem doubled_append (text more : List Char) :
    doubled (text ++ more) = doubled text ++ doubled more :=
  List.flatMap_append

theorem doubled_plain (noBackslash : '\\' ∉ text) : doubled text = text := by
  induction text with
  | nil => rfl
  | cons c text ih =>
    rw [List.mem_cons, not_or] at noBackslash
    rw [doubled_cons, if_neg (Ne.symm noBackslash.1), ih noBackslash.2, List.singleton_append]

/-- The second pass takes one of two backslashes away. -/
theorem decodeEscapes_doubled (text : List Char) : decodeEscapes false (doubled text) = text := by
  induction text with
  | nil => rfl
  | cons c text ih =>
    rw [doubled_cons]
    by_cases backslash : c = '\\'
    · subst backslash
      rw [if_pos rfl, List.cons_append, List.singleton_append, decodeEscapes, ih]
      rfl
    · rw [if_neg backslash, List.singleton_append, decodeEscapes_plain _ backslash, ih]

theorem Body.push_comp_push (first second : List Char) (count further : Nat) :
    Body.push first count ∘ Body.push second further =
      Body.push (first ++ second) (further + count) := by
  funext body
  simp only [Function.comp_apply, push, List.append_assoc, Nat.add_assoc]

/-- The first pass goes over a spelling at any depth and comes back to it, and leaves the text with
its backslashes doubled. -/
theorem delimitedBody?_spelled (spelled : SpelledBetween opener closer text spelling)
    (opens : opener ≠ '\\') (closes : closer ≠ '\\') (depth : Nat) (rest : List Char) :
    delimitedBody? opener closer false depth (spelling ++ rest) =
      (delimitedBody? opener closer false depth rest).map
        (Body.push (doubled text) spelling.length) := by
  induction spelled generalizing depth rest with
  | nil =>
    have same : Body.push (doubled []) 0 = id := rfl
    rw [List.nil_append, List.length_nil, same, Option.map_id_fun, id_eq]
  | backslash _ ih =>
    have kept : ((decide ('\\' = opener) || decide ('\\' = closer)) && !false) = false := by
      simp [Ne.symm opens, Ne.symm closes]
    simp only [List.cons_append, delimitedBody?, kept, ih depth rest, Option.map_map,
      Body.push_comp_push]
    rfl
  | @escaped c text spelling delimits _ ih =>
    have dropped : ((decide (c = opener) || decide (c = closer)) && !false) = true := by
      simpa using delimits
    have plain : c ≠ '\\' := by
      rcases delimits with rfl | rfl
      · exact opens
      · exact closes
    simp only [List.cons_append, delimitedBody?, dropped, ih depth rest, Option.map_map,
      Body.push_comp_push, doubled_cons, if_neg plain]
    rfl
  | @pair enclosed text within spelling paired _ _ inside ih =>
    have length : spelling.length + 1 + within.length + 1 =
        (opener :: (within ++ closer :: spelling)).length := by
      simp only [List.length_cons, List.length_append]
      omega
    rw [List.cons_append, List.append_assoc, List.cons_append,
      delimitedBody?_plain _ _ _ _ opens, if_neg paired, if_pos rfl, inside (depth + 1),
      delimitedBody?_plain _ _ _ _ closes, if_pos rfl, if_neg (Nat.succ_ne_zero depth),
      Nat.add_sub_cancel, ih depth rest]
    simp only [Option.map_map, Body.push_comp_push, doubled_cons, doubled_append, if_neg opens,
      if_neg closes, length]
  | @plain c text spelling noBackslash noDelimiter _ ih =>
    rw [List.cons_append, delimitedBody?_plain _ _ _ _ noBackslash, if_neg noDelimiter.2,
      if_neg noDelimiter.1, ih depth rest, Option.map_map, Body.push_comp_push, doubled_cons,
      if_neg noBackslash]
    rfl

/-- Where the closer stands behind a spelling, the first pass ends. -/
theorem delimitedBody?_spelled_closed (spelled : SpelledBetween opener closer text spelling)
    (opens : opener ≠ '\\') (closes : closer ≠ '\\') (rest : List Char) :
    delimitedBody? opener closer false 0 (spelling ++ closer :: rest) =
      some ⟨doubled text, spelling.length + 1⟩ := by
  rw [delimitedBody?_spelled spelled opens closes, delimitedBody?_plain _ _ _ _ closes, if_pos rfl,
    if_pos rfl, Option.map_some, Body.push, List.append_nil, Nat.add_comm]

/-- A delimiter that closes itself begins no spelling. -/
theorem SpelledBetween.head?_ne (spelled : SpelledBetween opener opener text spelling)
    (plain : opener ≠ '\\') : spelling.head? ≠ some opener := by
  intro first
  cases spelled with
  | nil => contradiction
  | backslash => exact plain (Option.some.inj first).symm
  | escaped => exact plain (Option.some.inj first).symm
  | pair paired => exact paired rfl
  | plain _ noDelimiter => exact noDelimiter.1 (Option.some.inj first)

end SigilScript
