import ThemedPages.Proofs.Evaluation
import ThemedPages.Proofs.Loops
import ThemedPages.Proofs.Markup
import ThemedPages.Source

/-!
# What is checked when a template is read

Some things that rendering a template could stumble over can not be written at all: a helper with the wrong number of
arguments, a path without a name. Others are looked for once the template is there.

* `Parser.Yields` is what can be told of whatever a parser reads, one lemma for each way to put parsers together.
* `Grammar.yields_expression` and `Grammar.yields_node` say that all expressions that are read are proper.
* `Template.proper_of_read` and `Template.flaw?_of_read` say what this comes to for templates.

What a parser reads depends on what it has read before, so `Parser.Yields` is carried through sequence from the first
part to the second. Where nothing has to be known of the first part, as is so most of the time, `Parser.yields_bind`
drops it. Recursion needs no equation here: `Parser.yields_fix` goes by how often the parser may enter itself, and one
that can not do so any more yields nothing.
-/

namespace ThemedPages

/-! ## What parsers yield

A parser yields what is said of all values that it can come to, whatever the input. Refusals and failures do not
count. -/

namespace Parser

variable {α β : Type} {P : α → Prop} {Q : β → Prop} {p : Parser α}

/-- All that is read has a property. -/
def Yields (P : α → Prop) (p : Parser α) : Prop := ∀ ⦃s : Bytes⦄ ⦃a : α⦄ ⦃rest : Bytes⦄, p s = .ok a rest → P a

theorem yields_true (p : Parser α) : p.Yields fun _ => True := fun _ _ _ _ => trivial

theorem yields_pure {a : α} (h : P a) : (pure a : Parser α).Yields P := by
  rintro s _ _ ⟨⟩
  exact h

/-- What never succeeds yields whatever one likes. This is what makes a check worth something: behind it, the check
was passed. -/
theorem yields_failAt (place : Bytes) (text : String) : (failAt place text : Parser α).Yields P := nofun

theorem yields_refuseAt (place : Bytes) : (refuseAt place : Parser α).Yields P := nofun

/-- **Sequence**, where the second part relies on what the first one yields. -/
theorem Yields.bind (h : p.Yields P) {f : α → Parser β} (hf : ∀ a, P a → (f a).Yields Q) : (p >>= f).Yields Q := by
  intro s b rest hs
  obtain ⟨a, mid, ha, hb⟩ := bind_eq_ok.mp hs
  exact hf a (h ha) hb

/-- Sequence, where the second part yields by itself what is said. -/
theorem yields_bind {f : α → Parser β} (hf : ∀ a, (f a).Yields Q) : (p >>= f).Yields Q :=
  (yields_true p).bind fun a _ => hf a

theorem Yields.map (h : p.Yields P) {g : α → β} (hg : ∀ a, P a → Q (g a)) : (g <$> p).Yields Q :=
  h.bind fun a ha => yields_pure (hg a ha)

theorem yields_map {g : α → β} (hg : ∀ a, Q (g a)) : (g <$> p).Yields Q := (yields_true p).map fun a _ => hg a

theorem Yields.seqRight {q : Parser β} (h : q.Yields Q) : (p *> q).Yields Q := yields_bind fun _ => h

theorem Yields.commit (h : p.Yields P) : (commit p).Yields P := fun _ _ _ hs => h (commit_eq_ok.mp hs)

theorem Yields.label (h : p.Yields P) (text : String) : (label text p).Yields P := fun _ _ _ hs =>
  h (label_eq_ok.mp hs)

/-- What is optional may be missing. If it is there, it is as it was said. -/
theorem Yields.optional (h : p.Yields P) : (optional p).Yields fun found => ∀ a ∈ found, P a := by
  intro s found rest hs a ha
  obtain rfl := Option.mem_def.mp ha
  exact h (optional_eq_some.mp hs)

/-- A choice yields what all of its alternatives do. -/
theorem yields_choice {ps : List (Parser α)} (h : ∀ p ∈ ps, p.Yields P) : (choice ps).Yields P := by
  induction ps with
  | nil => nofun
  | cons p ps ih =>
    intro s a rest hs
    have hfirst : ∀ {rest}, p s = .ok a rest → P a := fun hp => h p List.mem_cons_self hp
    rcases hp : p s with ⟨a', rest'⟩ | trace | trace
    · rw [choice_of_ok hp] at hs
      cases hs
      exact hfirst hp
    · cases ps with
      | nil => simp [choice, hp] at hs
      | cons q qs =>
        rw [choice_of_refused hp] at hs
        exact ih (fun p' hp' => h p' (List.mem_cons_of_mem _ hp')) hs
    · cases ps <;> simp [choice, hp] at hs

theorem yields_fixAlong {build : Parser α → Parser α} (h : ∀ p, p.Yields P → (build p).Yields P) (bytes : Bytes) :
    (fixAlong build bytes).Yields P := by
  induction bytes with
  | nil => exact h _ nofun
  | cons b bytes ih => exact h _ ih

/-- What is yielded by a parser if it is by the one inside it is yielded by the parser that is built from itself. -/
theorem yields_fix {build : Parser α → Parser α} (h : ∀ p, p.Yields P → (build p).Yields P) : (fix build).Yields P :=
  fun s _ _ hs => yields_fixAlong h s hs

/-- A list of values is as each of its values is. -/
theorem Yields.prepend {a : α} (ha : P a) {more : Parser (List α)} (h : more.Yields fun as => ∀ a ∈ as, P a) :
    (prepend a more).Yields fun as => ∀ a ∈ as, P a :=
  h.bind fun _ has => yields_pure (List.forall_mem_cons.mpr ⟨ha, has⟩)

/-- The values of a loop are those of its items. -/
theorem yields_many (h : p.Yields P) : (many p).Yields fun as => ∀ a ∈ as, P a := by
  refine yields_fix fun self hself s as rest hs => ?_
  split at hs
  · next a mid ha => exact Yields.prepend (h ha) hself hs
  · cases hs
    simp
  · cases hs

theorem yields_manyUntil (h : p.Yields P) (stop : Parser Unit) :
    (manyUntil p stop).Yields fun as => ∀ a ∈ as, P a := by
  refine yields_fix fun self hself s as rest hs => ?_
  split at hs
  · cases hs
    simp
  · cases hs
  · split at hs
    · next a mid ha => exact Yields.prepend (h ha) hself hs
    · cases hs
    · cases hs

/-- The values of a loop over a list are those of its items, whatever stands between them. -/
theorem yields_listUntil (h : p.Yields P) (separator close : Parser Unit) :
    (listUntil p separator close).Yields fun as => ∀ a ∈ as, P a := by
  have hnil : (close *> pure [] : Parser (List α)).Yields fun as => ∀ a ∈ as, P a :=
    Yields.seqRight (yields_pure (by simp))
  refine yields_fix fun self hself s as rest hs => ?_
  split at hs
  · next a mid ha =>
    split at hs
    · exact Yields.prepend (h ha) hself hs
    · exact Yields.prepend (h ha) hnil hs
  all_goals
    split at hs
    · cases hs
      simp
    · cases hs

end Parser

/-! ## Expressions that are read

An expression is proper if each call in it has as many arguments as the helper takes and each path has a first name. -/

namespace Grammar

open ThemedPages.Parser

theorem yields_integer : integer.Yields Expr.Proper := by
  refine yields_bind fun start => yields_bind fun negative => yields_bind fun ds => ?_
  dsimp only
  split
  · exact yields_pure trivial
  · exact yields_refuseAt _

/-- A path has a first name, since it is read as one with others after it. -/
theorem yields_path : path.Yields Expr.Proper := by
  refine yields_bind fun first => yields_bind fun rest => yields_pure ?_
  split
  · trivial
  · exact List.cons_ne_nil first rest

/-- **A call is checked when it is read:** it has as many arguments as its helper takes, or reading fails. -/
theorem yields_call {e : Parser Expr} (h : e.Yields Expr.Proper) : (call e).Yields Expr.Proper := by
  refine yields_bind fun _ => yields_bind fun start => Yields.commit (yields_bind fun called => ?_)
  have hargs : (arguments e).Yields fun args => ∀ arg ∈ args, arg.Proper :=
    yields_bind fun _ => yields_bind fun _ => yields_listUntil h _ _
  refine (hargs.label _).bind fun args hargs => ?_
  split
  · split
    · next harity => exact yields_pure ⟨harity.symm, Expr.properAll_iff.mpr hargs⟩
    · exact yields_failAt _ _
  · exact yields_failAt _ _

/-- All expressions that are read are proper. -/
theorem yields_expression : expression.Yields Expr.Proper := by
  refine yields_fix fun e he => yields_choice fun p hp => ?_
  simp only [List.mem_cons, List.not_mem_nil, or_false] at hp
  rcases hp with rfl | rfl | rfl | rfl | rfl
  · exact he.seqRight.map fun _ h => h
  · exact yields_map fun _ => trivial
  · exact yields_integer
  · exact yields_call he
  · exact yields_path

end Grammar

/-! ## Nodes that are read

What is in a node at any depth is what is in its parts and in itself, so a node is proper if its parts and its own
expressions are. There is a lemma for each node that has others in it. -/

/-- All expressions in the node are proper, at any depth. -/
def Node.Proper (node : Node) : Prop := ∀ x ∈ node.nodes, ∀ e ∈ x.exprs, e.Proper

/-- A node among some nodes or inside of them is one of them or inside of one. -/
theorem mem_nodesIn {x : Node} {nodes : List Node} : x ∈ nodesIn nodes ↔ ∃ node ∈ nodes, x ∈ node.nodes := by
  induction nodes with
  | nil => simp [nodesIn]
  | cons node rest ih => simp [nodesIn, ih]

/-- So it is the same to go through all nodes at any depth, or through those at the top and what is inside each. -/
theorem proper_nodesIn {nodes : List Node} :
    (∀ x ∈ nodesIn nodes, ∀ e ∈ x.exprs, e.Proper) ↔ ∀ node ∈ nodes, node.Proper := by
  simp only [mem_nodesIn, Node.Proper]
  grind

/-- A loop has a list and a body. -/
theorem Node.proper_loop {name : String} {list : Expr} {body : List Node} :
    (Node.loop name list body).Proper ↔ list.Proper ∧ ∀ node ∈ body, node.Proper := by
  rw [Node.Proper, Node.nodes, List.forall_mem_cons]
  exact and_congr List.forall_mem_singleton proper_nodesIn

/-- A condition has a test and one body or two. -/
theorem Node.proper_cond {test : Expr} {body : List Node} {otherwise : Option (List Node)} :
    (Node.cond test body otherwise).Proper ↔
      test.Proper ∧ (∀ node ∈ body, node.Proper) ∧ ∀ nodes ∈ otherwise, ∀ node ∈ nodes, node.Proper := by
  cases otherwise with
  | none =>
    rw [Node.Proper, Node.nodes, List.forall_mem_cons]
    refine and_congr List.forall_mem_singleton (proper_nodesIn.trans ?_)
    simp
  | some nodes =>
    rw [Node.Proper, Node.nodes, List.forall_mem_cons, List.forall_mem_append]
    refine and_congr List.forall_mem_singleton (and_congr proper_nodesIn (proper_nodesIn.trans ?_))
    simp

/-- A block has a body and no expression of its own. -/
theorem Node.proper_block {name : String} {body : List Node} :
    (Node.block name body).Proper ↔ ∀ node ∈ body, node.Proper := by
  rw [Node.Proper, Node.nodes, List.forall_mem_cons]
  exact (and_iff_right fun e he => absurd he List.not_mem_nil).trans proper_nodesIn

/-- Of a node with nothing in it, only its own expressions count. -/
theorem Node.proper_of_exprs {node : Node} (hnodes : node.nodes = [node]) (h : ∀ e ∈ node.exprs, e.Proper) :
    node.Proper := by
  rw [Node.Proper, hnodes]
  simpa using h

namespace Grammar

open ThemedPages.Parser

section

variable {p : Parser Node}

/-- Nodes in braces are read one by one. -/
theorem yields_braced (h : p.Yields Node.Proper) : (braced p).Yields fun nodes => ∀ node ∈ nodes, node.Proper :=
  yields_bind fun _ => ((yields_manyUntil h _).commit).label _

/-- A condition, and another one in it that follows the `else`, which is why there is a recursion here. -/
theorem yields_condition (h : p.Yields Node.Proper) : (condition p).Yields Node.Proper := by
  refine yields_fix fun c hc => (yields_expression.label _).bind fun test htest => yields_bind fun _ => ?_
  refine (yields_braced h).bind fun body hbody => ?_
  have hotherwise : (choice [(fun nested => [nested]) <$> (word ['@', 'i', 'f'] *> blanks1 *> c), braced p]).Yields
      fun nodes => ∀ node ∈ nodes, node.Proper := by
    refine yields_choice fun q hq => ?_
    rcases List.mem_pair.mp hq with rfl | rfl
    · exact (hc.seqRight (p := word ['@', 'i', 'f'] *> blanks1)).map fun nested h => by simpa using h
    · exact yields_braced h
  refine (Yields.optional (yields_bind fun _ => yields_bind fun _ => yields_bind fun _ => hotherwise)).bind ?_
  exact fun otherwise ho => yields_pure (Node.proper_cond.mpr ⟨htest, hbody, ho⟩)

theorem yields_loop (h : p.Yields Node.Proper) : (loop p).Yields Node.Proper := by
  refine yields_bind fun name => yields_bind fun _ => yields_bind fun _ => yields_bind fun _ => ?_
  refine (yields_expression.label _).bind fun list hlist => yields_bind fun _ => ?_
  exact (yields_braced h).bind fun body hbody => yields_pure (Node.proper_loop.mpr ⟨hlist, hbody⟩)

theorem yields_block (h : p.Yields Node.Proper) : (block p).Yields Node.Proper :=
  yields_bind fun _ => yields_bind fun _ =>
    (yields_braced h).bind fun _ hbody => yields_pure (Node.proper_block.mpr hbody)

end

/-- The arguments of a snippet are expressions like any other. -/
theorem yields_snippet : snippet.Yields Node.Proper := by
  have hargument : argument.Yields fun arg => arg.2.Proper := by
    refine yields_bind fun parameter => yields_bind fun _ => yields_bind fun _ => yields_bind fun _ => ?_
    exact (yields_expression.commit.label _).bind fun e he => yields_pure he
  refine yields_bind fun _ => yields_bind fun path => ?_
  refine (yields_many (Yields.seqRight hargument)).bind fun args hargs => ?_
  refine yields_bind fun _ => yields_bind fun _ => yields_pure (Node.proper_of_exprs rfl ?_)
  exact List.forall_mem_map.mpr hargs

/-- An expression that is shown is proper, and a comment and a text have none. -/
theorem yields_undirected : undirected.Yields Node.Proper := by
  refine yields_choice fun p hp => ?_
  simp only [List.mem_cons, List.not_mem_nil, or_false] at hp
  rcases hp with rfl | rfl | rfl
  · exact Yields.seqRight (yields_pure (Node.proper_of_exprs rfl nofun))
  · exact yields_map fun _ => Node.proper_of_exprs rfl nofun
  · exact (Yields.seqRight yields_expression).map fun e he => Node.proper_of_exprs rfl (by simpa [Node.exprs] using he)

/-- All expressions in a node that is read are proper. -/
theorem yields_node : node.Yields Node.Proper := by
  refine yields_fix fun p hp => yields_bind fun start => yields_bind fun directive => ?_
  split
  · exact yields_pure (Node.proper_of_exprs rfl nofun)
  · exact yields_pure (Node.proper_of_exprs rfl nofun)
  · exact (yields_condition hp).commit.label _
  · exact (yields_loop hp).commit.label _
  · exact (yields_block hp).commit.label _
  · exact yields_snippet.commit.label _
  · exact yields_failAt _ _
  · exact yields_undirected

end Grammar

/-! ## Templates that are read

Reading is the grammar and a check of what it made, so whatever is known of the two is known of a template that was
read. -/

namespace Template

variable {name : String} {source : Bytes} {t : Template}

/-- A template is read if it can be parsed and nothing is wrong with it. -/
theorem read_eq_ok :
    Template.read name source = .ok t ↔ (∃ rest, Grammar.document source = .ok t rest) ∧ t.flaw? = none := by
  constructor
  · intro h
    unfold Template.read at h
    split at h
    · next template rest hdocument =>
      split at h
      · next hflaw =>
        obtain rfl := Except.ok.inj h
        exact ⟨⟨rest, hdocument⟩, hflaw⟩
      · cases h
    all_goals cases h
  · rintro ⟨⟨rest, hdocument⟩, hflaw⟩
    simp only [Template.read, hdocument, hflaw]

/-- All expressions in a template that is read are proper. -/
theorem proper_of_read (h : Template.read name source = .ok t) :
    ∀ node ∈ nodesIn t.body, ∀ e ∈ node.exprs, e.Proper := by
  obtain ⟨⟨rest, hdocument⟩, -⟩ := read_eq_ok.mp h
  have hbody : Grammar.document.Yields fun t => ∀ node ∈ t.body, node.Proper :=
    Parser.yields_bind fun _ => Parser.yields_bind fun _ =>
      (Parser.yields_manyUntil Grammar.yields_node _).bind fun _ hbody => Parser.yields_pure hbody
  exact proper_nodesIn.mpr (hbody hdocument)

/-- Nothing is wrong with a template that is read. -/
theorem flaw?_of_read (h : Template.read name source = .ok t) : t.flaw? = none := (read_eq_ok.mp h).2

end Template

end ThemedPages
