import SigilScript.Scan.Scanner

/-! # Bodies of literals

A literal whose end is found in a text is the same whatever stands behind the text, and its body
goes up to the closer that ends it. So the body rests on nothing but what it takes.
-/

namespace SigilScript

variable {text : List Char} {body : Body}

/-- A character that no escape begins with is not the backslash. -/
theorem plain_of_alone {c : Char} {rest : List Char} (single : c = '\\' → rest = [] → False)
    (escape : ∀ (escaped : Char) (more : List Char), c = '\\' → rest = escaped :: more → False) :
    c ≠ '\\' := by
  intro same
  rcases rest with _ | ⟨escaped, more⟩
  · exact single same rfl
  · exact escape escaped more same rfl

theorem quotedBody?_plain (quote : Char) {c : Char} (plain : c ≠ '\\') (rest : List Char) :
    quotedBody? quote (c :: rest) = if c = quote then some ⟨[], 1⟩
      else (quotedBody? quote rest).map (Body.push [c] 1) := by
  rw [quotedBody?]
  · exact fun same => absurd same plain
  · exact fun _ _ same => absurd same plain

theorem quotedBody?_append {quote : Char} (found : quotedBody? quote text = some body)
    (tail : List Char) : quotedBody? quote (text ++ tail) = some body := by
  fun_induction quotedBody? quote text generalizing body with
  | case1 => contradiction
  | case2 => contradiction
  | case3 escaped rest decoded =>
    rename_i ih
    obtain ⟨inner, same, rfl⟩ := Option.map_eq_some_iff.mp found
    simp only [List.cons_append, quotedBody?, ih same, Option.map_some, decoded]
  | case4 rest single escape =>
    rw [List.cons_append, quotedBody?_plain quote (plain_of_alone single escape), if_pos rfl, found]
  | case5 c rest single escape other ih =>
    obtain ⟨inner, same, rfl⟩ := Option.map_eq_some_iff.mp found
    rw [List.cons_append, quotedBody?_plain quote (plain_of_alone single escape), if_neg other,
      ih same, Option.map_some]

/-- Whether a body in a text goes up to a closer and takes it. -/
def Body.Closed (closer : Char) (text : List Char) (body : Body) : Prop :=
  ∃ inner rest : List Char, text = inner ++ closer :: rest ∧ body.length = inner.length + 1

namespace Body.Closed

variable {closer : Char} {rest : List Char}

theorem push (closed : body.Closed closer rest) (taken decoded : List Char) :
    (body.push decoded taken.length).Closed closer (taken ++ rest) := by
  obtain ⟨inner, behind, rfl, length⟩ := closed
  refine ⟨taken ++ inner, behind, (List.append_assoc ..).symm, ?_⟩
  change body.length + taken.length = (taken ++ inner).length + 1
  rw [length, List.length_append]
  omega

theorem length_le (closed : body.Closed closer text) : body.length ≤ text.length := by
  obtain ⟨inner, behind, rfl, length⟩ := closed
  rw [length, List.length_append, List.length_cons]
  omega

end Body.Closed

theorem quotedBody?_closed {quote : Char} (found : quotedBody? quote text = some body) :
    body.Closed quote text := by
  fun_induction quotedBody? quote text generalizing body with
  | case1 => contradiction
  | case2 => contradiction
  | case3 escaped rest decoded =>
    rename_i ih
    obtain ⟨body, same, rfl⟩ := Option.map_eq_some_iff.mp found
    exact (ih same).push ['\\', escaped] decoded
  | case4 rest single escape =>
    obtain rfl := Option.some.inj found
    exact ⟨[], rest, rfl, rfl⟩
  | case5 c rest single escape other ih =>
    obtain ⟨body, same, rfl⟩ := Option.map_eq_some_iff.mp found
    exact (ih same).push [c] [c]

variable {opener closer : Char} {keepsEscapes : Bool} {depth : Nat}

theorem delimitedBody?_plain (opener closer : Char) (keepsEscapes : Bool) (depth : Nat) {c : Char}
    (plain : c ≠ '\\') (rest : List Char) :
    delimitedBody? opener closer keepsEscapes depth (c :: rest) =
      if c = closer then
        if depth = 0 then some ⟨[], 1⟩
        else (delimitedBody? opener closer keepsEscapes (depth - 1) rest).map (Body.push [c] 1)
      else if c = opener then
        (delimitedBody? opener closer keepsEscapes (depth + 1) rest).map (Body.push [c] 1)
      else (delimitedBody? opener closer keepsEscapes depth rest).map (Body.push [c] 1) := by
  rw [delimitedBody?]
  · exact fun same => absurd same plain
  · exact fun _ _ same => absurd same plain

theorem delimitedBody?_append
    (found : delimitedBody? opener closer keepsEscapes depth text = some body)
    (tail : List Char) :
    delimitedBody? opener closer keepsEscapes depth (text ++ tail) = some body := by
  fun_induction delimitedBody? opener closer keepsEscapes depth text generalizing body with
  | case1 => contradiction
  | case2 => contradiction
  | case3 depth escaped rest kept =>
    rename_i ih
    obtain ⟨inner, same, rfl⟩ := Option.map_eq_some_iff.mp found
    simp only [List.cons_append, delimitedBody?, ih same, Option.map_some, kept]
  | case4 rest single escape =>
    rw [List.cons_append, delimitedBody?_plain _ _ _ _ (plain_of_alone single escape), if_pos rfl,
      if_pos rfl, found]
  | case5 depth rest inside single escape ih =>
    obtain ⟨inner, same, rfl⟩ := Option.map_eq_some_iff.mp found
    rw [List.cons_append, delimitedBody?_plain _ _ _ _ (plain_of_alone single escape), if_pos rfl,
      if_neg inside, ih same, Option.map_some]
  | case6 depth rest single escape other ih =>
    obtain ⟨inner, same, rfl⟩ := Option.map_eq_some_iff.mp found
    rw [List.cons_append, delimitedBody?_plain _ _ _ _ (plain_of_alone single escape),
      if_neg other, if_pos rfl, ih same, Option.map_some]
  | case7 depth c rest single escape noCloser noOpener ih =>
    obtain ⟨inner, same, rfl⟩ := Option.map_eq_some_iff.mp found
    rw [List.cons_append, delimitedBody?_plain _ _ _ _ (plain_of_alone single escape),
      if_neg noCloser, if_neg noOpener, ih same, Option.map_some]

theorem delimitedBody?_closed
    (found : delimitedBody? opener closer keepsEscapes depth text = some body) :
    body.Closed closer text := by
  fun_induction delimitedBody? opener closer keepsEscapes depth text generalizing body with
  | case1 => contradiction
  | case2 => contradiction
  | case3 depth escaped rest kept =>
    rename_i ih
    obtain ⟨body, same, rfl⟩ := Option.map_eq_some_iff.mp found
    exact (ih same).push ['\\', escaped] kept
  | case4 rest single escape =>
    obtain rfl := Option.some.inj found
    exact ⟨[], rest, rfl, rfl⟩
  | case5 depth rest inside single escape ih =>
    obtain ⟨body, same, rfl⟩ := Option.map_eq_some_iff.mp found
    exact (ih same).push [closer] [closer]
  | case6 depth rest single escape other ih =>
    obtain ⟨body, same, rfl⟩ := Option.map_eq_some_iff.mp found
    exact (ih same).push [opener] [opener]
  | case7 depth c rest single escape noCloser noOpener ih =>
    obtain ⟨body, same, rfl⟩ := Option.map_eq_some_iff.mp found
    exact (ih same).push [c] [c]

/-! ## What a body rests on -/

variable {front rest : List Char}

/-- Whether the body of a literal rests on nothing but what it takes. -/
structure EndsItself (body? : List Char → Option Body) : Prop where
  fits {text : List Char} {body : Body} (found : body? text = some body) : body.length ≤ text.length
  exchange {front rest : List Char} {body : Body} (found : body? (front ++ rest) = some body)
    (fits : body.length ≤ front.length) (rest' : List Char) : body? (front ++ rest') = some body

/-- A body that is found in a text is the same whatever stands behind it, so it is enough that a
body that is not found in a text does not end there. -/
theorem EndsItself.of_beyond {body? : List Char → Option Body}
    (fits : ∀ {text body}, body? text = some body → body.length ≤ text.length)
    (append : ∀ {front body}, body? front = some body → ∀ rest, body? (front ++ rest) = some body)
    (beyond : ∀ {front rest body}, body? front = none → body? (front ++ rest) = some body →
      front.length < body.length) : EndsItself body? where
  fits := fits
  exchange {front rest body} found fits rest' := by
    cases within : body? front with
    | none => exact absurd (beyond within found) (Nat.not_lt.mpr fits)
    | some inner =>
      rw [append within rest] at found
      rw [append within rest', found]

theorem quotedBody?_beyond {quote : Char} {body : Body} (missing : quotedBody? quote front = none)
    (found : quotedBody? quote (front ++ rest) = some body) : front.length < body.length := by
  fun_induction quotedBody? quote front generalizing body with
  | case1 =>
    obtain ⟨inner, behind, -, length⟩ := quotedBody?_closed found
    exact length ▸ Nat.succ_pos _
  | case2 =>
    rcases rest with _ | ⟨escaped, rest⟩
    · contradiction
    · obtain ⟨inner, -, rfl⟩ := Option.map_eq_some_iff.mp found
      exact Nat.lt_add_left _ Nat.one_lt_two
  | case3 escaped front decoded =>
    rename_i ih
    obtain ⟨inner, same, rfl⟩ := Option.map_eq_some_iff.mp found
    exact Nat.add_lt_add_right (ih (Option.map_eq_none_iff.mp missing) same) 2
  | case4 front single escape => contradiction
  | case5 c front single escape other ih =>
    rw [List.cons_append, quotedBody?_plain quote (plain_of_alone single escape),
      if_neg other] at found
    obtain ⟨inner, same, rfl⟩ := Option.map_eq_some_iff.mp found
    exact Nat.add_lt_add_right (ih (Option.map_eq_none_iff.mp missing) same) 1

theorem delimitedBody?_beyond {opener closer : Char} {keepsEscapes : Bool} {depth : Nat}
    {body : Body} (missing : delimitedBody? opener closer keepsEscapes depth front = none)
    (found : delimitedBody? opener closer keepsEscapes depth (front ++ rest) = some body) :
    front.length < body.length := by
  fun_induction delimitedBody? opener closer keepsEscapes depth front generalizing body with
  | case1 =>
    obtain ⟨inner, behind, -, length⟩ := delimitedBody?_closed found
    exact length ▸ Nat.succ_pos _
  | case2 =>
    rcases rest with _ | ⟨escaped, rest⟩
    · rw [List.append_nil, delimitedBody?] at found
      contradiction
    · rw [List.singleton_append, delimitedBody?] at found
      obtain ⟨inner, -, rfl⟩ := Option.map_eq_some_iff.mp found
      exact Nat.lt_add_left _ Nat.one_lt_two
  | case3 depth escaped front kept =>
    rename_i ih
    rw [List.cons_append, List.cons_append, delimitedBody?] at found
    obtain ⟨inner, same, rfl⟩ := Option.map_eq_some_iff.mp found
    exact Nat.add_lt_add_right (ih (Option.map_eq_none_iff.mp missing) same) 2
  | case4 front single escape => contradiction
  | case5 depth front inside single escape ih =>
    rw [List.cons_append, delimitedBody?_plain _ _ _ _ (plain_of_alone single escape), if_pos rfl,
      if_neg inside] at found
    obtain ⟨inner, same, rfl⟩ := Option.map_eq_some_iff.mp found
    exact Nat.add_lt_add_right (ih (Option.map_eq_none_iff.mp missing) same) 1
  | case6 depth front single escape other ih =>
    rw [List.cons_append, delimitedBody?_plain _ _ _ _ (plain_of_alone single escape),
      if_neg other, if_pos rfl] at found
    obtain ⟨inner, same, rfl⟩ := Option.map_eq_some_iff.mp found
    exact Nat.add_lt_add_right (ih (Option.map_eq_none_iff.mp missing) same) 1
  | case7 depth c front single escape noCloser noOpener ih =>
    rw [List.cons_append, delimitedBody?_plain _ _ _ _ (plain_of_alone single escape),
      if_neg noCloser, if_neg noOpener] at found
    obtain ⟨inner, same, rfl⟩ := Option.map_eq_some_iff.mp found
    exact Nat.add_lt_add_right (ih (Option.map_eq_none_iff.mp missing) same) 1

theorem endsItself_quoted (quote : Char) : EndsItself (quotedBody? quote) :=
  .of_beyond (fun found => (quotedBody?_closed found).length_le) quotedBody?_append
    quotedBody?_beyond

theorem endsItself_text (opener : Char) : EndsItself (textBody? opener) :=
  .of_beyond (fun found => (delimitedBody?_closed found).length_le) delimitedBody?_append
    delimitedBody?_beyond

theorem endsItself_pattern (opener : Char) : EndsItself (patternBody? opener) :=
  .of_beyond (fun found => (delimitedBody?_closed found).length_le) delimitedBody?_append
    delimitedBody?_beyond

end SigilScript
