import ThemedPages.Grammar.Document
import ThemedPages.Proofs.Loops

/-!
# What the grammar takes

Every expression and every node takes a byte at least, so that the loops of the grammar are those that their equations
say they are: `Grammar.expression_eq`, `Grammar.condition_eq` and `Grammar.node_eq`.

The grammar is built from itself in three places: an expression has expressions in it, what follows an `else` can be a
condition again, and nodes have nodes in them. For each of the three there is a lemma `guarded_…` that the building is
guarded, and its proof goes through the parts in the order in which they are read: what comes before the recursion
takes a byte, or the recursion is on an input that is shorter already. For each part there are two lemmas:

* `takes_…` says how many bytes the part takes at least, given that the parser for what is nested takes one.
* `agree_…` says that the part is the same on short inputs for two parsers of what is nested that are.
-/

namespace ThemedPages.Grammar

open ThemedPages.Parser

/-! ## Names, strings and blanks

These have nothing nested in them, so it is only said how much they take. Blanks may be missing where they are
optional, so they take nothing for certain. -/

/-- Blanks may be none. -/
theorem takes_blanks : blanks.Takes 0 := (takes_span _).bind_left fun _ => takes_pure _

theorem takes_blanks1 : blanks1.Takes 1 := (takes_span1 _).bind_left fun _ => takes_pure _

theorem takes_name : name.Takes 1 :=
  (takes_span1 _).bind_left fun _ => (takes_span _).bind_left fun _ => takes_pure _

/-- The quotes alone are two bytes. That a string takes one is enough for the loops. -/
theorem takes_string : string.Takes 1 :=
  (takes_char _).bind_left fun _ => (takes_span _).bind_left fun _ =>
    ((takes_char _).zero).bind_left fun _ => takes_pure _

/-- What is left after a comment is an end of what was there when it began. -/
theorem afterComment_suffix {s rest : Bytes} (h : afterComment s = some rest) : rest <:+ s := by
  fun_induction afterComment s with
  | case1 after =>
    obtain rfl := Option.some.inj h
    exact ⟨[0x2A, 0x40], rfl⟩
  | case2 b after _ ih => exact (ih h).trans (List.suffix_cons b after)
  | case3 => cases h

theorem takes_comment : comment.Takes 1 := by
  refine ((takes_word ['@', '*']).mono (by decide)).bind_left fun _ s a rest hs => ?_
  split at hs
  · next h =>
    cases hs
    obtain ⟨taken, htaken⟩ := afterComment_suffix h
    exact ⟨taken, htaken.symm, Nat.zero_le _⟩
  · cases hs

/-- What is read between the parts of a directive. -/
theorem takes_space : (choice [comment, blanks1]).Takes 1 := by
  refine takes_choice fun p hp => ?_
  rcases List.mem_pair.mp hp with rfl | rfl
  · exact takes_comment
  · exact takes_blanks1

theorem takes_spaces : spaces.Takes 0 := (takes_many takes_space).bind_left fun _ => takes_pure _

/-! ## Expressions

A call is what makes an expression recursive, and so is a negation. Both have read something when they come to the
expressions inside: the name of the helper with its parenthesis, or the exclamation mark. -/

/-- An integer has a digit, with a sign before it or not. -/
theorem takes_integer : integer.Takes 1 := by
  refine takes_position.bind_right fun start => ?_
  refine Takes.bind_right (((takes_char '-').zero).optional) fun negative => ?_
  refine (takes_span1 _).bind_left fun ds => ?_
  dsimp only
  split
  · exact takes_pure _
  · exact takes_refuseAt _

theorem takes_part : (char '.' *> name).Takes 1 := (takes_char '.').seqRight takes_name.zero

theorem takes_path : path.Takes 1 :=
  takes_name.bind_left fun _ => (takes_many takes_part).bind_left fun _ => takes_pure _

/-- What is read between arguments. -/
theorem takes_separator : (blanks *> char ',' *> blanks).Takes 1 :=
  Takes.seqRight (takes_blanks.bind_right fun _ => takes_char ',') takes_blanks

/-- The end of the arguments. It may be counted as nothing here, as it comes after the last recursion. -/
theorem takes_close : (blanks *> char ')').Takes 0 :=
  takes_blanks.seqRight ((takes_char ')').zero)

section

variable {e e' : Parser Expr} {m : Nat}

/-- Arguments are read by a loop that takes an item each time around, so the items have to take something. -/
theorem takes_arguments (he : e.Takes 1) : (arguments e).Takes 0 :=
  ((takes_char '(').zero).bind_left fun _ =>
    takes_blanks.bind_left fun _ => takes_listUntil he takes_separator.zero takes_close

theorem agree_arguments (he : e.Takes 1) (he' : e'.Takes 1) (h : e.Agree m e') :
    (arguments e).Agree m (arguments e') :=
  .bind_right ((takes_char '(').zero) fun _ =>
    .bind_right takes_blanks fun _ => agree_listUntil he he' takes_separator.zero takes_close h

/-- The name of a helper is a byte at least, so a call takes one although its arguments may be counted as nothing. -/
theorem takes_call (he : e.Takes 1) : (call e).Takes 1 := by
  refine ((takes_word ['h', '.']).mono (by decide)).bind_left fun _ => takes_position.bind_left fun start => ?_
  refine Takes.commit (takes_name.zero.bind_left fun called => ?_)
  refine ((takes_arguments he).label _).bind_left fun args => ?_
  split
  · split
    · exact takes_pure _
    · exact takes_failAt _ _
  · exact takes_failAt _ _

/-- **A call is guarded.** It agrees on inputs that are longer by one than those the expressions agree on, since the
`h` is read before the first of them. -/
theorem agree_call (he : e.Takes 1) (he' : e'.Takes 1) (h : e.Agree m e') : (call e).Agree (m + 1) (call e') := by
  refine .bind_taken ((takes_word ['h', '.']).mono (by decide)) fun _ => .bind_right takes_position fun start => ?_
  refine Agree.commit (.bind_right takes_name.zero fun called => ?_)
  exact ((agree_arguments he he' h).label _).bind_left _

end

/-- **Expressions are guarded.** A negation and a call take a byte before they come to an expression, and the others
come to none. -/
theorem guarded_expressionOf : Guarded 1 expressionOf where
  takes h := by
    refine takes_choice fun p hp => ?_
    simp only [List.mem_cons, List.not_mem_nil, or_false] at hp
    rcases hp with rfl | rfl | rfl | rfl | rfl
    · exact ((takes_char '!').seqRight (h.zero)).map _
    · exact takes_string.map _
    · exact takes_integer
    · exact takes_call h
    · exact takes_path
  agree hp hq h := by
    have hnot := Agree.bind_taken (takes_char '!') fun _ => h
    exact agree_choice (.cons (.map hnot _) (.cons (.refl _) (.cons (.refl _)
      (.cons (agree_call hp hq h) (.cons (.refl _) .nil)))))

theorem takes_expression : expression.Takes 1 := guarded_expressionOf.takes_fix

/-- **The equation of expressions:** they are built from expressions. -/
theorem expression_eq : expression = expressionOf expression := guarded_expressionOf.fix_eq

/-! ## Nodes

A node that is nested is inside of braces, after the word that announces it, so nodes are guarded with the `@` as the
byte that is taken. A condition is a recursion of its own, inside of this one and for nodes that are given: it comes
back to itself at `else @if`. -/

/-- Where there is a directive, its `@` is taken. -/
theorem exists_directive_eq : ∃ p : Parser Directive, p.Takes 1 ∧ directive = optional p := by
  refine ⟨_, Takes.seqRight (takes_char '@') (takes_choice fun p hp => ?_), rfl⟩
  have hword : ∀ (w : List Char) (d : Directive), (word w *> pure d).Takes 0 := fun w d =>
    ((takes_word w).zero).seqRight (takes_pure d)
  have hchar : ∀ (c : Char) (d : Directive), (char c *> pure d).Takes 0 := fun c d =>
    ((takes_char c).zero).seqRight (takes_pure d)
  simp only [List.mem_cons, List.not_mem_nil, or_false] at hp
  rcases hp with rfl | rfl | rfl | rfl | rfl | rfl | rfl
  · exact hchar _ _
  · exact hchar _ _
  · exact hchar _ _
  · exact hword _ _
  · exact hword _ _
  · exact hword _ _
  · refine Takes.seqLeft (takes_choice fun p hp => ?_) takes_blanks1.zero
    simp only [List.mem_cons, List.not_mem_nil, or_false] at hp
    rcases hp with rfl | rfl | rfl <;> exact hword _ _

theorem takes_directive : directive.Takes 0 := by
  obtain ⟨p, hp, hdirective⟩ := exists_directive_eq
  rw [hdirective]
  exact (hp.zero).optional

/-- A directive that is there has a word, so something was taken of what is left to its part of the grammar. -/
theorem exists_taken_of_directive {s rest : Bytes} {d : Directive} (h : directive s = .ok (some d) rest) :
    ∃ taken, s = taken ++ rest ∧ 1 ≤ taken.length := by
  obtain ⟨p, hp, hdirective⟩ := exists_directive_eq
  rw [hdirective, optional_eq_some] at h
  exact hp h

theorem takes_undirected : undirected.Takes 1 := by
  refine takes_choice fun p hp => ?_
  simp only [List.mem_cons, List.not_mem_nil, or_false] at hp
  rcases hp with rfl | rfl | rfl
  · exact takes_comment.seqRight (takes_pure _)
  · exact (takes_span1 _).map _
  · exact ((takes_char '@').seqRight takes_expression.zero).map _

theorem takes_argument : argument.Takes 1 :=
  takes_name.bind_left fun _ => takes_blanks.bind_left fun _ =>
    ((takes_char '=').zero).bind_left fun _ => takes_blanks.bind_left fun _ =>
      (takes_expression.zero.commit.label _).bind_left fun _ => takes_pure _

/-- What an argument of a snippet is read by, with what comes before it. -/
theorem takes_nextArgument : (blanks *> char ',' *> blanks *> argument).Takes 1 :=
  takes_separator.seqRight takes_argument.zero

/-- A snippet may be counted as nothing, for the word that announced it was taken by the directive. -/
theorem takes_snippet : snippet.Takes 0 :=
  takes_blanks.bind_left fun _ => (takes_string.zero.label _).bind_left fun _ =>
    (takes_many takes_nextArgument).bind_left fun _ => takes_blanks.bind_left fun _ =>
      (((takes_char ')').zero).label _).bind_left fun _ => takes_pure _

section

variable {p q : Parser Node} {m : Nat}

/-- Nodes in braces may be none, and the braces are not counted. -/
theorem takes_braced (hp : p.Takes 1) : (braced p).Takes 0 :=
  (((takes_char '{').zero).label _).bind_left fun _ =>
    (takes_manyUntil hp ((takes_char '}').zero)).commit.label _

/-- Nodes in braces are read by a loop until the closing brace, so they agree where the nodes do. -/
theorem agree_braced (hp : p.Takes 1) (hq : q.Takes 1) (h : p.Agree m q) : (braced p).Agree m (braced q) :=
  .bind_right (((takes_char '{').zero).label _) fun _ =>
    (agree_manyUntil hp hq ((takes_char '}').zero) h).commit.label _

theorem takes_block (hp : p.Takes 1) : (block p).Takes 0 :=
  (takes_name.zero.label _).bind_left fun _ => takes_spaces.bind_left fun _ =>
    (takes_braced hp).bind_left fun _ => takes_pure _

theorem agree_block (hp : p.Takes 1) (hq : q.Takes 1) (h : p.Agree m q) : (block p).Agree m (block q) :=
  .bind_right (takes_name.zero.label _) fun _ => .bind_right takes_spaces fun _ =>
    (agree_braced hp hq h).bind_left _

theorem takes_loop (hp : p.Takes 1) : (loop p).Takes 0 :=
  (takes_name.zero.label _).bind_left fun _ =>
    takes_blanks1.zero.bind_left fun _ =>
      (((takes_word ['i', 'n']).zero).label _).bind_left fun _ =>
        takes_blanks1.zero.bind_left fun _ =>
          (takes_expression.zero.label _).bind_left fun _ => takes_spaces.bind_left fun _ =>
            (takes_braced hp).bind_left fun _ => takes_pure _

theorem agree_loop (hp : p.Takes 1) (hq : q.Takes 1) (h : p.Agree m q) : (loop p).Agree m (loop q) :=
  .bind_right (takes_name.zero.label _) fun _ =>
    .bind_right takes_blanks1.zero fun _ =>
      .bind_right (((takes_word ['i', 'n']).zero).label _) fun _ =>
        .bind_right takes_blanks1.zero fun _ =>
          .bind_right (takes_expression.zero.label _) fun _ => .bind_right takes_spaces fun _ =>
            (agree_braced hp hq h).bind_left _

/-- What may come after the body of a condition, given how to read a condition that follows an `else`. -/
theorem takes_otherwise (hp : p.Takes 1) {c : Parser Node} (hc : c.Takes 0) :
    (choice [(fun nested => [nested]) <$> (word ['@', 'i', 'f'] *> blanks1 *> c), braced p]).Takes 0 := by
  refine takes_choice fun r hr => ?_
  rcases List.mem_pair.mp hr with rfl | rfl
  · exact (Takes.seqRight (((takes_word _).zero).seqRight takes_blanks1.zero) hc).map _
  · exact takes_braced hp

/-- Conditions agree on inputs of one more byte than what is inside them, for their tests take a byte. -/
theorem agree_conditionOf (hp : p.Takes 1) (hq : q.Takes 1) (h : p.Agree m q) {c c' : Parser Node}
    (hcc : c.Agree m c') : (conditionOf p c).Agree (m + 1) (conditionOf q c') := by
  refine .bind_taken (takes_expression.label _) fun test => .bind_right takes_spaces fun _ => ?_
  refine (agree_braced hp hq h).bind (fun body => .bind_left (.optional ?_) _) (takes_braced hp)
  refine .bind_right takes_spaces fun _ => .bind_right ((takes_word _).zero) fun _ => ?_
  have hif : (word ['@', 'i', 'f'] *> blanks1).Takes 0 :=
    ((takes_word _).zero).seqRight takes_blanks1.zero
  have hnested := Agree.bind_right hif fun _ => hcc
  exact .bind_right takes_spaces fun _ => agree_choice (.cons (.map hnested _) (.cons (agree_braced hp hq h) .nil))

/-- **Conditions are guarded.** The recursion comes after the test, and the test takes a byte. What a condition takes
as a whole may be counted as nothing. -/
theorem guarded_conditionOf (hp : p.Takes 1) : Guarded 0 (conditionOf p) where
  takes hc := by
    refine (takes_expression.zero.label _).bind_left fun test => takes_spaces.bind_left fun _ => ?_
    refine (takes_braced hp).bind_left fun body => Takes.bind_left (Takes.optional ?_) fun _ => takes_pure _
    exact takes_spaces.bind_left fun _ => ((takes_word _).zero).bind_left fun _ =>
      takes_spaces.bind_left fun _ => takes_otherwise hp hc
  agree _ _ h := agree_conditionOf hp hp (.refl p) h

/-- What a condition takes does not matter, as its word was taken before. -/
theorem takes_condition (hp : p.Takes 1) : (condition p).Takes 0 := (guarded_conditionOf hp).takes_fix

/-- **The equation of conditions:** what follows the `else` may be a condition. -/
theorem condition_eq (hp : p.Takes 1) : condition p = conditionOf p (condition p) := (guarded_conditionOf hp).fix_eq

/-- Conditions agree where their nodes do. This takes the induction once more, since a condition is a fixed point for
each parser of nodes. -/
theorem agree_condition (hp : p.Takes 1) (hq : q.Takes 1) (h : p.Agree m q) :
    (condition p).Agree m (condition q) :=
  (guarded_conditionOf hp).agree_fix (guarded_conditionOf hq) fun c _ =>
    (agree_conditionOf hp hq h (.refl c)).mono (Nat.le_succ m)

end

/-- **Nodes are guarded.** Where a directive comes, it takes a byte, and then each kind of node agrees on what is
left. Where none comes, nothing that follows depends on what nodes are. -/
theorem guarded_nodeOf : Guarded 1 nodeOf where
  takes {p} h := by
    refine takes_position.bind_right fun start => ?_
    intro s a rest hs
    obtain ⟨d, mid, hd, hread⟩ := bind_eq_ok.mp hs
    cases d with
    | none =>
      obtain ⟨taken, rfl, -⟩ := takes_directive hd
      obtain ⟨taken', rfl, hn⟩ := takes_undirected hread
      exact ⟨taken ++ taken', (List.append_assoc ..).symm, by rw [List.length_append]; omega⟩
    | some d =>
      have hannounced : ∃ taken, mid = taken ++ rest ∧ 0 ≤ taken.length := by
        cases d with
        | literal c => exact takes_pure _ hread
        | super => exact takes_pure _ hread
        | cond => exact (takes_condition h).commit.label _ hread
        | loop => exact (takes_loop h).commit.label _ hread
        | block => exact (takes_block h).commit.label _ hread
        | snippet => exact takes_snippet.commit.label _ hread
        | «extends» => cases hread
      obtain ⟨taken, rfl, hn⟩ := exists_taken_of_directive hd
      obtain ⟨taken', rfl, -⟩ := hannounced
      exact ⟨taken ++ taken', (List.append_assoc ..).symm, by rw [List.length_append]; omega⟩
  agree {p q m} hp hq h := by
    refine .bind_right takes_position fun start => ?_
    intro s hs
    rcases hd : directive s with ⟨_ | d, rest⟩ | trace | trace
    · rw [bind_of_ok hd, bind_of_ok hd]
    · rw [bind_of_ok hd, bind_of_ok hd]
      -- what a directive announces is read from fewer bytes
      have hlength : rest.length < m := by
        obtain ⟨taken, rfl, hn⟩ := exists_taken_of_directive hd
        rw [List.length_append] at hs
        omega
      cases d with
      | cond => exact (agree_condition hp hq h).commit.label _ hlength
      | loop => exact (agree_loop hp hq h).commit.label _ hlength
      | block => exact (agree_block hp hq h).commit.label _ hlength
      | _ => rfl
    · rw [bind_of_refused hd, bind_of_refused hd]
    · rw [bind_of_failed hd, bind_of_failed hd]

theorem takes_node : node.Takes 1 := guarded_nodeOf.takes_fix

/-- **The equation of nodes:** they are built from nodes. -/
theorem node_eq : node = nodeOf node := guarded_nodeOf.fix_eq

end ThemedPages.Grammar
