import ThemedPages.Proofs.ReadingDirectives
import ThemedPages.Source

/-!
# Reading templates back

* `Node.Ends` says what may come after a node for it to be read as it is, and `Grammar.ends_of_precedes` that it does in
  a template that can be written.
* `Grammar.node_source` and `Grammar.manyUntil_source` read nodes back from their source, by recursion on them together.
* `Template.read_source` reads a template back.

The grammar reads a node by its directive, and what is written for a node begins with that directive. So for each kind
of node there is one lemma on what is written for it, as a list of bytes with all that comes after it
(`Grammar.bytes_source_loop` and so on), and one on what is read from such a list. What comes after is a variable in
both, which the induction on the nodes fills with the source of the nodes that follow and the closing of their list.

Two things have to be known of what comes after: that a node ends there, and that a list of nodes is not closed too
early. Both are seen from the first two bytes of what is written next, and `Grammar.Closes` says it of the closing.
-/

namespace ThemedPages

open ThemedPages.Parser

namespace Grammar

/-! ## Nodes after their directives

Once it is known which directive comes, reading a node is reading what this directive announces. -/

section

variable {s rest rest' : Bytes} {n : Node}

/-- Without a directive a node is a comment, a text or an expression. -/
theorem node_of_none (hd : directive s = .ok none s) : node s = undirected s := by
  have hstart : position s = .ok s s := rfl
  rw [congrFun node_eq, nodeOf, bind_of_ok hstart, bind_of_ok hd]

/-- A special character after an `@` is a text of its own. -/
theorem node_of_literal {c : Char} (hd : directive s = .ok (some (.literal c)) rest) :
    node s = .ok (.text (String.ofList [c])) rest := by
  have hstart : position s = .ok s s := rfl
  rw [congrFun node_eq, nodeOf, bind_of_ok hstart, bind_of_ok hd]
  rfl

theorem node_of_super (hd : directive s = .ok (some .super) rest) : node s = .ok .inherited rest := by
  have hstart : position s = .ok s s := rfl
  rw [congrFun node_eq, nodeOf, bind_of_ok hstart, bind_of_ok hd]
  rfl

/-- A condition is what is read after its `if`. It is an equivalence here, since a chained condition is read without
its directive. -/
theorem node_of_cond (hd : directive s = .ok (some .cond) rest) :
    node s = .ok n rest' ↔ condition node rest = .ok n rest' := by
  have hstart : position s = .ok s s := rfl
  rw [congrFun node_eq, nodeOf, bind_of_ok hstart, bind_of_ok hd]
  exact label_eq_ok.trans commit_eq_ok

theorem node_of_loop (hd : directive s = .ok (some .loop) rest) (h : loop node rest = .ok n rest') :
    node s = .ok n rest' := by
  have hstart : position s = .ok s s := rfl
  rw [congrFun node_eq, nodeOf, bind_of_ok hstart, bind_of_ok hd]
  exact label_of_ok (commit_of_ok h) _

theorem node_of_block (hd : directive s = .ok (some .block) rest) (h : block node rest = .ok n rest') :
    node s = .ok n rest' := by
  have hstart : position s = .ok s s := rfl
  rw [congrFun node_eq, nodeOf, bind_of_ok hstart, bind_of_ok hd]
  exact label_of_ok (commit_of_ok h) _

theorem node_of_snippet (hd : directive s = .ok (some .snippet) rest) (h : snippet rest = .ok n rest') :
    node s = .ok n rest' := by
  have hstart : position s = .ok s s := rfl
  rw [congrFun node_eq, nodeOf, bind_of_ok hstart, bind_of_ok hd]
  exact label_of_ok (commit_of_ok h) _

/-- A parent is not expected where nodes are. -/
theorem node_of_extends (hd : directive s = .ok (some .extends) rest) : node s ≠ .ok n rest' := by
  have hstart : position s = .ok s s := rfl
  rw [congrFun node_eq, nodeOf, bind_of_ok hstart, bind_of_ok hd]
  exact nofun

end

/-! ## Nodes without parts

A text is read as one run, and an expression up to what is not a part of it. -/

theorem node_comment (rest : Bytes) : node (0x40 :: 0x2A :: 0x20 :: 0x2A :: 0x40 :: rest) = .ok .comment rest := by
  have hcomment : comment (0x40 :: 0x2A :: 0x20 :: 0x2A :: 0x40 :: rest) = .ok () rest :=
    bind_of_ok (word_append ['@', '*'] (0x20 :: 0x2A :: 0x40 :: rest)) _
  rw [node_of_none (directive_of_unannounced (unannounced_of_first (by decide) (by decide) _))]
  exact choice_of_ok (seqRight_of_ok hcomment _) _

/-- A character that has a meaning stands for itself after an `@`. -/
theorem node_special {s : String} (h : IsSpecial s) (rest : Bytes) :
    node (0x40 :: (Utf8.bytes s ++ rest)) = .ok (.text s) rest := by
  rcases h with rfl | rfl | rfl
  · exact node_of_literal (directive_literal (c := '@') (by decide) rest)
  · exact node_of_literal (directive_literal (c := '{') (by decide) rest)
  · exact node_of_literal (directive_literal (c := '}') (by decide) rest)

/-- A text without special characters has none of their bytes. -/
theorem isPlain_of_mem_bytes {s : String} (h : ∀ c ∈ s.toList, c ≠ '@' ∧ c ≠ '{' ∧ c ≠ '}') {b : UInt8}
    (hb : b ∈ Utf8.bytes s) : isPlain b = true := by
  have hat : b ≠ 0x40 := Utf8.ne_of_mem_bytes (c := '@') (by decide) (fun hc => (h _ hc).1 rfl) hb
  have hopen : b ≠ 0x7B := Utf8.ne_of_mem_bytes (c := '{') (by decide) (fun hc => (h _ hc).2.1 rfl) hb
  have hclose : b ≠ 0x7D := Utf8.ne_of_mem_bytes (c := '}') (by decide) (fun hc => (h _ hc).2.2 rfl) hb
  simp [isPlain, hat, hopen, hclose]

theorem bytes_ne_nil {s : String} (h : s ≠ "") : Utf8.bytes s ≠ [] := by
  intro hnil
  refine h ?_
  rw [← Utf8.lossy_bytes s, hnil]
  rfl

/-- Where there is no `@` there is no directive and no comment. -/
theorem node_of_isPlain {b : UInt8} (h : isPlain b = true) (s : Bytes) :
    node (b :: s) = choice [(fun run => .text (Utf8.lossy run)) <$> span1 isPlain, .output <$> (char '@' *> expression)]
      (b :: s) := by
  have hat : b ≠ 0x40 := ne_of_class h (by decide)
  have hnone : directive (b :: s) = .ok none (b :: s) := optional_of_refuses ((refuses_char_cons hat s).seqRight _)
  rw [node_of_none hnone]
  exact choice_of_refuses (((refuses_word_cons hat s).bind _).seqRight _) _ _

/-- A text is read back if no text comes after it. -/
theorem node_text {s : String} (hne : s ≠ "") (h : ∀ c ∈ s.toList, c ≠ '@' ∧ c ≠ '{' ∧ c ≠ '}') {rest : Bytes}
    (hrest : Stops isPlain rest) : node (Utf8.bytes s ++ rest) = .ok (.text s) rest := by
  have hrun := span1_append (bytes_ne_nil hne) (fun b hb => isPlain_of_mem_bytes h hb) hrest
  obtain ⟨b, bs, hbytes⟩ := List.exists_cons_of_ne_nil (bytes_ne_nil hne)
  have hplain := isPlain_of_mem_bytes h (hbytes ▸ List.mem_cons_self : b ∈ Utf8.bytes s)
  have hread := choice_of_ok (map_of_ok hrun fun run => Node.text (Utf8.lossy run))
    [.output <$> (char '@' *> expression)]
  rw [Utf8.lossy_bytes] at hread
  rw [← hread, hbytes]
  exact node_of_isPlain hplain _

/-- An expression is read back where no text comes after it, which might begin with more of a path. -/
theorem node_output {e : Expr} (h : e.WellFormed) {rest : Bytes} (hrest : Stops isPlain rest) :
    node (0x40 :: (Utf8.bytes e.source ++ rest)) = .ok (.output e) rest := by
  have hunannounced := unannounced_source h hrest
  have hread := expression_source e h (stops_inPath hrest)
  have hat : ∀ rest, char '@' (0x40 :: rest) = .ok () rest := char_of_eq rfl
  have hcomment : comment.Refuses (0x40 :: (Utf8.bytes e.source ++ rest)) := by
    obtain ⟨b, bs, hbytes, hb⟩ := exists_bytes_source h
    refine refuses_comment fun hfront => ?_
    rw [hbytes] at hfront
    have hstar : 0x2A = b := second_eq_of_front hfront
    exact ne_of_class hb (by decide) hstar.symm
  have htext : (span1 isPlain).Refuses (0x40 :: (Utf8.bytes e.source ++ rest)) :=
    refuses_span1 (stops_cons (by decide) _)
  rw [node_of_none (directive_of_unannounced hunannounced), undirected, choice_of_refuses (hcomment.seqRight _),
    choice_of_refuses (htext.map _)]
  exact choice_of_ok (map_of_ok ((seqRight_of_ok (hat _) _).trans hread) _) _

/-! ## Snippets

Each argument of a snippet is read after its comma, and the parenthesis is what ends them. -/

theorem stops_name {s : String} (h : IsName s) (rest : Bytes) : Stops Ascii.isBlank (Utf8.bytes s ++ rest) := by
  obtain ⟨b, bs, hbytes, hb, -⟩ := exists_bytes_of_isName h
  rw [hbytes]
  exact stops_cons (isBlank_of_beginsExpression (beginsExpression_of_inName (inName_of_beginsName hb))) _

/-- An argument is read back if no more of an expression comes after it. -/
theorem argument_bytes {name : String} {e : Expr} (hname : IsName name) (h : e.WellFormed) {rest : Bytes}
    (hrest : Stops inPath rest) :
    argument (Utf8.bytes name ++ 0x20 :: 0x3D :: 0x20 :: (Utf8.bytes e.source ++ rest)) = .ok (name, e) rest := by
  have hequals : ∀ rest, char '=' (0x3D :: rest) = .ok () rest := char_of_eq rfl
  rw [argument, bind_of_ok (name_bytes hname (stops_cons (by decide) _)),
    bind_of_ok (blanks_space (stops_cons (by decide) _)), bind_of_ok (hequals _),
    bind_of_ok (blanks_space (stops_source h rest)),
    bind_of_ok (label_of_ok (commit_of_ok (expression_source e h hrest)) _)]
  rfl

theorem bytes_paramsSource (name : String) (e : Expr) (args : List (String × Expr)) :
    Utf8.bytes (Node.paramsSource ((name, e) :: args)) = 0x2C :: 0x20 :: (Utf8.bytes name ++
      0x20 :: 0x3D :: 0x20 :: (Utf8.bytes e.source ++ Utf8.bytes (Node.paramsSource args))) := by
  simp only [paramsSource_cons, Utf8.bytes_append, List.append_assoc]
  rfl

/-- All arguments are read back, by induction on them. After each comes a comma or the parenthesis, which are no part
of an expression. -/
theorem many_arguments {args : List (String × Expr)} (h : ∀ arg ∈ args, IsName arg.1 ∧ arg.2.WellFormed)
    (rest : Bytes) :
    many (blanks *> char ',' *> blanks *> argument) (Utf8.bytes (Node.paramsSource args) ++ 0x29 :: rest) =
      .ok args (0x29 :: rest) := by
  induction args with
  -- a bracket follows where the comma of a further argument would be
  | nil =>
    have hblank : blanks (0x29 :: rest) = .ok () (0x29 :: rest) := blanks_of_stops (stops_cons (by decide) rest)
    refine many_of_refuses takes_nextArgument ?_
    exact ((Refuses.after (refuses_char_cons (by decide) rest) hblank).seqRight _).seqRight _
  | cons arg args ih =>
    obtain ⟨name, e⟩ := arg
    obtain ⟨hname, he⟩ := h (name, e) List.mem_cons_self
    have hargs := ih fun arg harg => h arg (List.mem_cons_of_mem _ harg)
    -- an argument ends at the comma of the next one, or at the bracket
    have hnext : Stops inPath (Utf8.bytes (Node.paramsSource args) ++ 0x29 :: rest) := by
      cases args with
      | nil => exact stops_cons (by decide) rest
      | cons arg args =>
        rw [bytes_paramsSource]
        exact stops_cons (by decide) _
    rw [bytes_paramsSource]
    simp only [List.cons_append, List.append_assoc]
    refine many_of_ok takes_nextArgument ?_ hargs
    exact (seqRight_of_ok (separator_bytes (stops_name hname _)) _).trans (argument_bytes hname he hnext)

/-- A snippet is read back, given what its path and its parameters are written as. -/
theorem snippet_bytes {path : String} {args : List (String × Expr)} (hpath : IsQuotable path)
    (hargs : ∀ arg ∈ args, IsName arg.1 ∧ arg.2.WellFormed) (rest : Bytes) :
    snippet (0x22 :: (Utf8.bytes path ++ 0x22 :: (Utf8.bytes (Node.paramsSource args) ++ 0x29 :: rest))) =
      .ok (.snippet path args) rest := by
  have hclose : ∀ rest, char ')' (0x29 :: rest) = .ok () rest := char_of_eq rfl
  rw [snippet, bind_of_ok (blanks_of_stops (stops_cons (by decide) _)),
    bind_of_ok (label_of_ok (string_bytes hpath _) _), bind_of_ok (many_arguments hargs rest),
    bind_of_ok (blanks_of_stops (stops_cons (by decide) rest)), bind_of_ok (label_of_ok (hclose rest) _)]
  rfl

/-! ## Nodes in braces

For these the nodes in the braces are taken to be read back already, with the closing brace after them. -/

section

variable {s rest : Bytes} {body : List Node} (h : manyUntil node (char '}') s = .ok body rest)
include h

theorem braced_bytes : braced node (0x7B :: s) = .ok body rest := by
  have hopen : ∀ rest, char '{' (0x7B :: rest) = .ok () rest := char_of_eq rfl
  rw [braced, bind_of_ok (label_of_ok (hopen s) _)]
  exact label_of_ok (commit_of_ok h) _

/-- A loop is read back, given its body. -/
theorem loop_bytes {name : String} {list : Expr} (hname : IsName name) (hlist : list.WellFormed) :
    loop node (Utf8.bytes name ++ 0x20 :: 0x69 :: 0x6E :: 0x20 :: (Utf8.bytes list.source ++ 0x20 :: 0x7B :: s)) =
      .ok (.loop name list body) rest := by
  have hin : ∀ rest, word ['i', 'n'] (0x69 :: 0x6E :: rest) = .ok () rest := word_append ['i', 'n']
  have hopen : Solid (0x7B :: s) := solid_cons (by decide) (by decide) s
  rw [loop, bind_of_ok (label_of_ok (name_bytes hname (stops_cons (by decide) _)) _),
    bind_of_ok (blanks1_space (stops_cons (by decide) _)), bind_of_ok (label_of_ok (hin _) _),
    bind_of_ok (blanks1_space (stops_source hlist _)),
    bind_of_ok (label_of_ok (expression_source list hlist (stops_cons (by decide) _)) _),
    bind_of_ok (spaces_blank (by decide) hopen), bind_of_ok (braced_bytes h)]
  rfl

theorem block_bytes {name : String} (hname : IsName name) :
    block node (Utf8.bytes name ++ 0x20 :: 0x7B :: s) = .ok (.block name body) rest := by
  have hopen : Solid (0x7B :: s) := solid_cons (by decide) (by decide) s
  rw [block, bind_of_ok (label_of_ok (name_bytes hname (stops_cons (by decide) _)) _),
    bind_of_ok (spaces_blank (by decide) hopen), bind_of_ok (braced_bytes h)]
  rfl

end

/-! ## Conditions

After the body of a condition the grammar looks for an `else`, past blanks and comments. If there is none, these are
not read, so what comes after the condition has to be told from an `else` as well. -/

/-- Reads what comes after an `else`. -/
def otherwise : Parser (List Node) :=
  choice [(fun nested => [nested]) <$> (word ['@', 'i', 'f'] *> blanks1 *> condition node), braced node]

section

variable {s mid rest : Bytes} {test : Expr} {body nodes : List Node} (htest : test.WellFormed)
include htest

/-- The part of a condition up to its body, which is the same with an `else` and without. -/
theorem condition_of_body (h : manyUntil node (char '}') s = .ok body mid) :
    condition node (Utf8.bytes test.source ++ 0x20 :: 0x7B :: s) =
      (Node.cond test body <$> Parser.optional (do spaces; word ['e', 'l', 's', 'e']; spaces; otherwise)) mid := by
  have hopen : Solid (0x7B :: s) := solid_cons (by decide) (by decide) s
  rw [congrFun (condition_eq takes_node), conditionOf,
    bind_of_ok (label_of_ok (expression_source test htest (stops_cons (by decide) _)) _),
    bind_of_ok (spaces_blank (by decide) hopen), bind_of_ok (braced_bytes h)]
  rfl

/-- A condition ends where no `else` comes. -/
theorem condition_bytes (h : manyUntil node (char '}') s = .ok body rest) (hrest : Solid rest)
    (helse : ¬Bytes.ofAscii ['e', 'l', 's', 'e'] <+: rest) :
    condition node (Utf8.bytes test.source ++ 0x20 :: 0x7B :: s) = .ok (.cond test body none) rest := by
  rw [condition_of_body htest h]
  refine map_of_ok (optional_of_refuses ?_) _
  exact Refuses.bind_of_ok ((refuses_word helse).bind _) (spaces_of_solid hrest)

/-- A condition with an `else` is read back, given its body and what comes after the `else`. -/
theorem condition_else_bytes
    (h : manyUntil node (char '}') s = .ok body (0x20 :: (Bytes.ofAscii ['e', 'l', 's', 'e'] ++ 0x20 :: mid)))
    (hmid : Solid mid) (hnodes : otherwise mid = .ok nodes rest) :
    condition node (Utf8.bytes test.source ++ 0x20 :: 0x7B :: s) = .ok (.cond test body (some nodes)) rest := by
  have hword : Solid (Bytes.ofAscii ['e', 'l', 's', 'e'] ++ 0x20 :: mid) := solid_cons (by decide) (by decide) _
  rw [condition_of_body htest h]
  refine map_of_ok (optional_of_ok ?_) _
  rw [bind_of_ok (spaces_blank (by decide) hword), bind_of_ok (word_append _ _),
    bind_of_ok (spaces_blank (by decide) hmid)]
  exact hnodes

end

theorem otherwise_braced {s rest : Bytes} {nodes : List Node} (h : manyUntil node (char '}') s = .ok nodes rest) :
    otherwise (0x7B :: s) = .ok nodes rest := by
  have hif : ((fun nested => [nested]) <$> (word ['@', 'i', 'f'] *> blanks1 *> condition node)).Refuses (0x7B :: s) :=
    (((refuses_word_cons (by decide) s).seqRight _).seqRight _).map _
  rw [otherwise, choice_of_refuses hif]
  exact choice_of_ok (braced_bytes h) []

/-- A condition after an `else` is all there is then. -/
theorem otherwise_if {s rest : Bytes} {n : Node} (hs : Stops Ascii.isBlank s) (h : condition node s = .ok n rest) :
    otherwise (Bytes.ofAscii ['@', 'i', 'f'] ++ 0x20 :: s) = .ok [n] rest := by
  have hif : (word ['@', 'i', 'f'] *> blanks1) (Bytes.ofAscii ['@', 'i', 'f'] ++ 0x20 :: s) = .ok () s :=
    (seqRight_of_ok (word_append _ _) _).trans (blanks1_space hs)
  exact choice_of_ok (map_of_ok ((seqRight_of_ok hif _).trans h) _) _

end Grammar

/-! ## What comes after a node

A node ends where the rest cannot be read as a part of it. For a text or an expression that is a condition on the rest,
and so it is for a condition without an else. The sources of nodes are texts, and what is read are bytes. Here each
source is taken apart into bytes and the bytes of its parts, in the form in which the lemmas on reading have them. -/

/-- The rest of the input is not read as a part of the node. -/
def Node.Ends : Node → Bytes → Prop
  | .text s, rest => IsSpecial s ∨ Stops Grammar.isPlain rest
  | .output _, rest => Stops Grammar.isPlain rest
  | .cond _ _ none, rest => Stops Grammar.isPlain rest ∧ ¬[0x40, 0x2A] <+: rest
  | _, _ => True

namespace Grammar

variable {chained inBlock : Bool}

theorem bytes_source_comment (rest : Bytes) : Utf8.bytes (Node.comment.source chained) ++ rest =
    0x40 :: 0x2A :: 0x20 :: 0x2A :: 0x40 :: rest := by
  have hsource : Utf8.bytes "@* *@" = [0x40, 0x2A, 0x20, 0x2A, 0x40] := by decide
  rw [source_comment, hsource]
  rfl

theorem bytes_source_special {s : String} (h : IsSpecial s) :
    Utf8.bytes ((Node.text s).source chained) = 0x40 :: Utf8.bytes s := by
  rw [source_text, if_pos h, Utf8.bytes_append]
  rfl

theorem bytes_source_plain {s : String} (h : ¬IsSpecial s) :
    Utf8.bytes ((Node.text s).source chained) = Utf8.bytes s := by
  rw [source_text, if_neg h]

theorem bytes_source_output (e : Expr) :
    Utf8.bytes ((Node.output e).source chained) = 0x40 :: Utf8.bytes e.source := by
  rw [source_output, Utf8.bytes_append]
  rfl

/-- A loop: the word, its name, its list and its body in braces. -/
theorem bytes_source_loop (name : String) (list : Expr) (body : List Node) (rest : Bytes) :
    Utf8.bytes ((Node.loop name list body).source chained) ++ rest =
      0x40 :: (Bytes.ofAscii ['f', 'o', 'r'] ++ 0x20 :: (Utf8.bytes name ++ 0x20 :: 0x69 :: 0x6E :: 0x20 ::
        (Utf8.bytes list.source ++ 0x20 :: 0x7B :: (Utf8.bytes (sourceOf chained body) ++ 0x7D :: rest)))) := by
  simp only [source_loop, Utf8.bytes_append, List.append_assoc]
  rfl

theorem bytes_source_cond (test : Expr) (body : List Node) (rest : Bytes) :
    Utf8.bytes ((Node.cond test body none).source chained) ++ rest =
      0x40 :: (Bytes.ofAscii ['i', 'f'] ++ 0x20 ::
        (Utf8.bytes test.source ++ 0x20 :: 0x7B :: (Utf8.bytes (sourceOf chained body) ++ 0x7D :: rest))) := by
  simp only [source_cond, Utf8.bytes_append, List.append_assoc]
  rfl

/-- A condition with an `else`: as without, and then the word and what is written after it. -/
theorem bytes_source_else (test : Expr) (body nodes : List Node) (rest : Bytes) :
    Utf8.bytes ((Node.cond test body (some nodes)).source chained) ++ rest =
      0x40 :: (Bytes.ofAscii ['i', 'f'] ++ 0x20 :: (Utf8.bytes test.source ++ 0x20 :: 0x7B ::
        (Utf8.bytes (sourceOf chained body) ++ 0x7D :: 0x20 :: (Bytes.ofAscii ['e', 'l', 's', 'e'] ++ 0x20 ::
          (Utf8.bytes (elseSource chained nodes (sourceOf chained nodes)) ++ rest))))) := by
  simp only [source_else, Utf8.bytes_append, List.append_assoc]
  rfl

theorem bytes_source_block (name : String) (body : List Node) (rest : Bytes) :
    Utf8.bytes ((Node.block name body).source chained) ++ rest =
      0x40 :: (Bytes.ofAscii ['b', 'l', 'o', 'c', 'k'] ++ 0x20 :: (Utf8.bytes name ++ 0x20 :: 0x7B ::
        (Utf8.bytes (sourceOf chained body) ++ 0x7D :: rest))) := by
  simp only [source_block, Utf8.bytes_append, List.append_assoc]
  rfl

theorem bytes_source_inherited (rest : Bytes) : Utf8.bytes (Node.inherited.source chained) ++ rest =
    0x40 :: (Bytes.ofAscii ['s', 'u', 'p', 'e', 'r', '(', ')'] ++ rest) := by
  have hsource : Utf8.bytes "@super()" = 0x40 :: Bytes.ofAscii ['s', 'u', 'p', 'e', 'r', '(', ')'] := by decide
  rw [source_inherited, hsource, List.cons_append]

theorem bytes_source_snippet (path : String) (args : List (String × Expr)) (rest : Bytes) :
    Utf8.bytes ((Node.snippet path args).source chained) ++ rest =
      0x40 :: (Bytes.ofAscii ['i', 'n', 'c', 'l', 'u', 'd', 'e', '('] ++ 0x22 :: (Utf8.bytes path ++ 0x22 ::
        (Utf8.bytes (Node.paramsSource args) ++ 0x29 :: rest))) := by
  simp only [source_snippet, Utf8.bytes_append, List.append_assoc]
  rfl

/-- The first node is followed by the others and by what comes after them. -/
theorem bytes_sourceOf_cons (n : Node) (nodes : List Node) (tail : Bytes) :
    Utf8.bytes (sourceOf chained (n :: nodes)) ++ tail =
      Utf8.bytes (n.source chained) ++ (Utf8.bytes (sourceOf chained nodes) ++ tail) := by
  rw [sourceOf_cons, Utf8.bytes_append, List.append_assoc]

/-! ## What nodes begin with

A node that is not plain begins with an `@`, and only a comment has a star next. A plain one is a text and begins with
a byte of text. -/

/-- A node that is written with an `@` begins like a comment only if it is one. -/
theorem bytes_of_not_isPlain {n : Node} (h : n.WellFormed inBlock) (hplain : ¬n.IsPlain) (rest : Bytes) :
    ∃ b more, Utf8.bytes (n.source chained) ++ rest = 0x40 :: b :: more ∧ (n ≠ .comment → b ≠ 0x2A) := by
  cases n with
  | comment => exact ⟨0x2A, _, bytes_source_comment rest, fun hne => absurd rfl hne⟩
  | text s =>
    -- a text that is not written as it is is one of the three special characters
    have hspecial : IsSpecial s := Decidable.not_not.mp hplain
    rw [bytes_source_special hspecial]
    rcases hspecial with rfl | rfl | rfl
    · exact ⟨0x40, rest, rfl, fun _ => by decide⟩
    · exact ⟨0x7B, rest, rfl, fun _ => by decide⟩
    · exact ⟨0x7D, rest, rfl, fun _ => by decide⟩
  | output e =>
    obtain ⟨b, bs, hbytes, hb⟩ := exists_bytes_source h
    rw [bytes_source_output, hbytes]
    exact ⟨b, bs ++ rest, rfl, fun _ => ne_of_class hb (by decide)⟩
  | loop name list body => exact ⟨0x66, _, bytes_source_loop name list body rest, fun _ => by decide⟩
  | cond test body other =>
    cases other with
    | none => exact ⟨0x69, _, bytes_source_cond test body rest, fun _ => by decide⟩
    | some nodes => exact ⟨0x69, _, bytes_source_else test body nodes rest, fun _ => by decide⟩
  | block name body => exact ⟨0x62, _, bytes_source_block name body rest, fun _ => by decide⟩
  | inherited => exact ⟨0x73, _, bytes_source_inherited rest, fun _ => by decide⟩
  | snippet path args => exact ⟨0x69, _, bytes_source_snippet path args rest, fun _ => by decide⟩

/-- A text begins with a byte of text. -/
theorem bytes_of_isPlain {n : Node} (h : n.WellFormed inBlock) (hplain : n.IsPlain) (rest : Bytes) :
    ∃ b more, Utf8.bytes (n.source chained) ++ rest = b :: more ∧ isPlain b = true := by
  cases n with
  | text s =>
    obtain ⟨hne, hs⟩ := h.resolve_left hplain
    obtain ⟨b, bs, hbytes⟩ := List.exists_cons_of_ne_nil (bytes_ne_nil hne)
    rw [bytes_source_plain hplain, hbytes]
    exact ⟨b, bs ++ rest, rfl, isPlain_of_mem_bytes hs (hbytes ▸ List.mem_cons_self)⟩
  | _ => exact hplain.elim

/-- If no text comes first, what is written does not go on with text. -/
theorem stops_sourceOf {nodes : List Node} (h : WellFormedNodes inBlock nodes)
    (hplain : ∀ n ∈ nodes.head?, ¬n.IsPlain) {tail : Bytes} (htail : Stops isPlain tail) :
    Stops isPlain (Utf8.bytes (sourceOf chained nodes) ++ tail) := by
  cases nodes with
  | nil => exact htail
  | cons n nodes =>
    rw [bytes_sourceOf_cons]
    obtain ⟨b, more, hbytes, -⟩ := bytes_of_not_isPlain h.1 (hplain n rfl) _
    rw [hbytes]
    exact stops_cons (by decide) _

/-- If no comment comes first, what is written does not go on with one. -/
theorem not_comment_sourceOf {nodes : List Node} (h : WellFormedNodes inBlock nodes)
    (hcomment : ∀ n ∈ nodes.head?, n ≠ .comment) {tail : Bytes} (htail : ¬[0x40, 0x2A] <+: tail) :
    ¬[0x40, 0x2A] <+: Utf8.bytes (sourceOf chained nodes) ++ tail := by
  cases nodes with
  | nil => exact htail
  | cons n nodes =>
    rw [bytes_sourceOf_cons]
    intro hfront
    by_cases hplain : n.IsPlain
    · obtain ⟨b, more, hbytes, hb⟩ := bytes_of_isPlain h.1 hplain _
      rw [hbytes] at hfront
      exact ne_of_class hb (by decide) (List.cons_prefix_cons.mp hfront).1.symm
    · obtain ⟨b, more, hbytes, hb⟩ := bytes_of_not_isPlain h.1 hplain _
      rw [hbytes] at hfront
      exact hb (hcomment n rfl) (second_eq_of_front hfront).symm

/-- What closes a list of nodes. -/
structure Closes (stop : Parser Unit) (tail rest : Bytes) : Prop where
  takes : stop.Takes 0
  ok : stop tail = .ok () rest
  /-- no node is taken for the closing -/
  refuses : ∀ b s, b ≠ 0x7D → stop.Refuses (b :: s)
  /-- the closing is not read as a part of a node -/
  plain : Stops isPlain tail
  comment : ¬[0x40, 0x2A] <+: tail

/-- A list of nodes in braces is closed by its brace. -/
theorem closes_brace (rest : Bytes) : Closes (char '}') (0x7D :: rest) rest where
  takes := (takes_char '}').zero
  ok := char_of_eq rfl rest
  refuses _ s hb := refuses_char_cons hb s
  plain := stops_cons (by decide) rest
  comment hfront := absurd (List.cons_prefix_cons.mp hfront).1 (by decide)

theorem closes_finish : Closes finish [] [] where
  takes := takes_finish
  ok := rfl
  refuses _ _ _ := refuses_finish (List.cons_ne_nil _ _)
  plain := stops_nil isPlain
  comment hfront := absurd (List.prefix_nil.mp hfront) (by decide)

/-- Before another node or the closing of the list, a node ends. -/
theorem ends_of_precedes {n : Node} {nodes : List Node} (h : n.Precedes nodes) (hnodes : WellFormedNodes inBlock nodes)
    {stop : Parser Unit} {tail rest : Bytes} (hclose : Closes stop tail rest) :
    n.Ends (Utf8.bytes (sourceOf chained nodes) ++ tail) := by
  cases nodes with
  -- the last node of its list ends where the list is closed
  | nil =>
    cases n with
    | text s => exact .inr hclose.plain
    | output e => exact hclose.plain
    | cond test body other =>
      cases other with
      | none => exact ⟨hclose.plain, hclose.comment⟩
      | some nodes => trivial
    | _ => trivial
  | cons next nodes =>
    -- what is not plain begins with `@`, which ends the text or the expression before it
    have hplain : ¬next.IsPlain → Stops isPlain (Utf8.bytes (sourceOf chained (next :: nodes)) ++ tail) := fun hn =>
      stops_sourceOf hnodes (fun n hn' => Option.some.inj hn' ▸ hn) hclose.plain
    cases n with
    | text s => exact h.imp_right hplain
    | output e => exact hplain h
    | cond test body other =>
      cases other with
      | none =>
        refine ⟨hplain h.1, not_comment_sourceOf hnodes (fun n hn => Option.some.inj hn ▸ h.2) hclose.comment⟩
      | some nodes => trivial
    | _ => trivial

/-! ## Lists of nodes

Nodes are read one after the other until the closing. Where a node comes next, the closing is refused, since a node
does not begin with a brace. -/

theorem manyUntil_nil {stop : Parser Unit} {tail rest : Bytes} (h : Closes stop tail rest) :
    manyUntil node stop tail = .ok [] rest := by
  rw [manyUntil_eq takes_node h.takes, h.ok]

/-- A node that is read comes before those that are read after it. -/
theorem manyUntil_cons {stop : Parser Unit} {s mid rest : Bytes} {n : Node} {nodes : List Node} (hstop : stop.Takes 0)
    (hrefuses : stop.Refuses s) (hn : node s = .ok n mid) (hnodes : manyUntil node stop mid = .ok nodes rest) :
    manyUntil node stop s = .ok (n :: nodes) rest := by
  obtain ⟨trace, htrace⟩ := hrefuses
  rw [manyUntil_eq takes_node hstop, htrace]
  simp only [hn]
  exact prepend_of_ok hnodes n

/-- A node is not taken for the closing of a list. -/
theorem Closes.refuses_node {stop : Parser Unit} {tail rest : Bytes} (h : Closes stop tail rest) {n : Node}
    (hn : n.WellFormed inBlock) (s : Bytes) : stop.Refuses (Utf8.bytes (n.source chained) ++ s) := by
  by_cases hplain : n.IsPlain
  · obtain ⟨b, more, hbytes, hb⟩ := bytes_of_isPlain hn hplain s
    rw [hbytes]
    exact h.refuses b more (ne_of_class hb (by decide))
  · obtain ⟨b, more, hbytes, -⟩ := bytes_of_not_isPlain hn hplain s
    rw [hbytes]
    exact h.refuses _ _ (by decide)

/-- A condition is read after its `if` as it is read with it. -/
theorem condition_of_node {test : Expr} {body nodes : List Node} {rest : Bytes} (htest : test.WellFormed)
    (h : node (Utf8.bytes ((Node.cond test body (some nodes)).source chained) ++ rest) =
      .ok (.cond test body (some nodes)) rest) :
    otherwise (Utf8.bytes ((Node.cond test body (some nodes)).source chained) ++ rest) =
      .ok [.cond test body (some nodes)] rest := by
  rw [bytes_source_else] at h ⊢
  exact otherwise_if (stops_source htest _) ((node_of_cond (directive_if (stops_source htest _))).mp h)

/-- After an `else` there is either a chained condition, written without braces, or there are nodes in braces. -/
theorem elseSource_cases (chained : Bool) (nodes : List Node) (rest : Bytes) :
    (∃ test body nodes', nodes = [.cond test body (some nodes')] ∧
      Utf8.bytes (elseSource chained nodes (sourceOf chained nodes)) ++ rest =
        Utf8.bytes ((Node.cond test body (some nodes')).source chained) ++ rest) ∨
    Utf8.bytes (elseSource chained nodes (sourceOf chained nodes)) ++ rest =
      0x7B :: (Utf8.bytes (sourceOf chained nodes) ++ 0x7D :: rest) := by
  by_cases hchained : (chained && chains nodes) = true
  · obtain ⟨test, body, nodes', rfl⟩ : ∃ test body nodes', nodes = [.cond test body (some nodes')] := by
      have hchains := (Bool.and_eq_true_iff.mp hchained).2
      unfold chains at hchains
      split at hchains
      · exact ⟨_, _, _, rfl⟩
      · cases hchains
    refine .inl ⟨test, body, nodes', rfl, ?_⟩
    rw [elseSource, if_pos hchained, bytes_sourceOf_cons]
    rfl
  · refine .inr ?_
    rw [elseSource, if_neg hchained, Utf8.bytes_append, Utf8.bytes_append, List.append_assoc, List.append_assoc]
    rfl

/-- Neither begins with a blank or a comment, so what is skipped after the `else` ends there. -/
theorem solid_elseSource (chained : Bool) (nodes : List Node) (rest : Bytes) :
    Solid (Utf8.bytes (elseSource chained nodes (sourceOf chained nodes)) ++ rest) := by
  rcases elseSource_cases chained nodes rest with ⟨test, body, nodes', -, hsource⟩ | hsource
  · rw [hsource, bytes_source_else]
    exact ⟨stops_cons (by decide) _, fun hfront => absurd (second_eq_of_front hfront) (by decide)⟩
  · rw [hsource]
    exact solid_cons (by decide) (by decide) _

/-- What comes after an `else` is read back, in braces or without. -/
theorem otherwise_source {nodes : List Node} (h : WellFormedNodes inBlock nodes) {rest : Bytes}
    (hbraced : manyUntil node (char '}') (Utf8.bytes (sourceOf chained nodes) ++ 0x7D :: rest) = .ok nodes rest)
    (hnode : ∀ n ∈ nodes, n.WellFormed inBlock → n.Ends rest →
      node (Utf8.bytes (n.source chained) ++ rest) = .ok n rest) :
    otherwise (Utf8.bytes (elseSource chained nodes (sourceOf chained nodes)) ++ rest) = .ok nodes rest := by
  rcases elseSource_cases chained nodes rest with ⟨test, body, nodes', rfl, hsource⟩ | hsource
  · rw [hsource]
    exact condition_of_node h.1.1 (hnode _ List.mem_cons_self h.1 trivial)
  · rw [hsource]
    exact otherwise_braced hbraced

mutual

/-- A node is read back, if it ends before what comes next. -/
theorem node_source : ∀ (n : Node) {inBlock : Bool} {rest : Bytes}, n.WellFormed inBlock → n.Ends rest →
    node (Utf8.bytes (n.source chained) ++ rest) = .ok n rest
  | .comment, _, rest, _, _ => by
    rw [bytes_source_comment]
    exact node_comment rest
  | .text s, _, rest, h, hrest => by
    -- a special character is written as an output, other text as it is
    by_cases hspecial : IsSpecial s
    · rw [bytes_source_special hspecial]
      exact node_special hspecial rest
    · obtain ⟨hne, hs⟩ := h.resolve_left hspecial
      rw [bytes_source_plain hspecial]
      exact node_text hne hs (hrest.resolve_left hspecial)
  | .output e, _, rest, h, hrest => by
    rw [bytes_source_output]
    exact node_output h hrest
  | .loop name list body, inBlock, rest, h, _ => by
    have hbody := manyUntil_source body h.2.2 (closes_brace rest)
    rw [bytes_source_loop]
    exact node_of_loop (directive_for (stops_name h.1 _)) (loop_bytes hbody h.1 h.2.1)
  | .cond test body none, inBlock, rest, h, hrest => by
    have hbody := manyUntil_source body h.2 (closes_brace rest)
    -- no `else` follows, since its first letter would be part of a text
    have helse : ¬Bytes.ofAscii ['e', 'l', 's', 'e'] <+: rest := by
      rintro ⟨after, rfl⟩
      exact absurd (hrest.1 0x65 rfl) (by decide)
    rw [bytes_source_cond]
    exact (node_of_cond (directive_if (stops_source h.1 _))).mpr
      (condition_bytes h.1 hbody ⟨stops_isBlank hrest.1, hrest.2⟩ helse)
  | .cond test body (some nodes), inBlock, rest, h, _ => by
    -- the body ends at its brace, where the word `else` follows
    have hbody := manyUntil_source body h.2.1 (closes_brace (0x20 :: (Bytes.ofAscii ['e', 'l', 's', 'e'] ++ 0x20 ::
      (Utf8.bytes (elseSource chained nodes (sourceOf chained nodes)) ++ rest))))
    have hnodes := otherwise_source h.2.2 (manyUntil_source nodes h.2.2 (closes_brace rest))
      fun n hn hwell hends => node_source n hwell hends
    rw [bytes_source_else]
    exact (node_of_cond (directive_if (stops_source h.1 _))).mpr
      (condition_else_bytes h.1 hbody (solid_elseSource chained nodes rest) hnodes)
  | .block name body, _, rest, h, _ => by
    have hbody := manyUntil_source body h.2 (closes_brace rest)
    rw [bytes_source_block]
    exact node_of_block (directive_block (stops_name h.1 _)) (block_bytes hbody h.1)
  | .inherited, _, rest, _, _ => by
    rw [bytes_source_inherited]
    exact node_of_super (directive_super rest)
  | .snippet path args, _, rest, h, _ => by
    rw [bytes_source_snippet]
    exact node_of_snippet (directive_include _) (snippet_bytes h.1 h.2.1 rest)

/-- Nodes are read back up to what closes their list. -/
theorem manyUntil_source : ∀ (nodes : List Node) {inBlock : Bool} {stop : Parser Unit} {tail rest : Bytes},
    WellFormedNodes inBlock nodes → Closes stop tail rest →
    manyUntil node stop (Utf8.bytes (sourceOf chained nodes) ++ tail) = .ok nodes rest
  | [], _, _, _, _, _, hclose => manyUntil_nil hclose
  | n :: nodes, _, _, tail, _, ⟨hn, hprecedes, hnodes⟩, hclose => by
    have hends : n.Ends (Utf8.bytes (sourceOf chained nodes) ++ tail) := ends_of_precedes hprecedes hnodes hclose
    rw [bytes_sourceOf_cons]
    exact manyUntil_cons hclose.takes (hclose.refuses_node hn _) (node_source n hn hends)
      (manyUntil_source nodes hnodes hclose)

end

/-! ## Documents

A template may have a parent. If it has none, its first node must not be read as one, and `extends` is no directive
that a node begins with. -/

/-- Where nodes can be read there is no parent. -/
theorem not_extends_sourceOf {nodes : List Node} (h : WellFormedNodes inBlock nodes) :
    ¬Bytes.ofAscii ['@', 'e', 'x', 't', 'e', 'n', 'd', 's', '('] <+: Utf8.bytes (sourceOf chained nodes) := by
  rintro ⟨rest, hrest⟩
  cases nodes with
  | nil => cases hrest
  | cons n nodes =>
    obtain ⟨hn, hprecedes, hnodes⟩ := h
    have hends : n.Ends (Utf8.bytes (sourceOf chained nodes) ++ []) := ends_of_precedes hprecedes hnodes closes_finish
    have hread : node (Utf8.bytes (n.source chained) ++ (Utf8.bytes (sourceOf chained nodes) ++ [])) =
        .ok n (Utf8.bytes (sourceOf chained nodes) ++ []) := node_source n hn hends
    rw [← bytes_sourceOf_cons, List.append_nil, ← hrest] at hread
    exact node_of_extends (directive_extends rest) hread

/-- A parent is read back. -/
theorem parent_bytes {path : String} (h : IsQuotable path) (rest : Bytes) :
    parent (Bytes.ofAscii ['@', 'e', 'x', 't', 'e', 'n', 'd', 's', '('] ++
      0x22 :: (Utf8.bytes path ++ 0x22 :: 0x29 :: rest)) = .ok path rest := by
  have hclose : ∀ rest, char ')' (0x29 :: rest) = .ok () rest := char_of_eq rfl
  rw [parent, bind_of_ok (word_append _ _)]
  refine commit_of_ok ?_
  rw [bind_of_ok (blanks_of_stops (stops_cons (by decide) _)), bind_of_ok (label_of_ok (string_bytes h _) _),
    bind_of_ok (blanks_of_stops (stops_cons (by decide) _)), bind_of_ok (label_of_ok (hclose rest) _)]
  rfl

/-- A text begins with a blank only if its first character is one. -/
theorem stops_text {s : String} (h : ∀ c ∈ s.toList.head?, c ≠ ' ' ∧ c ≠ '\t' ∧ c ≠ '\r' ∧ c ≠ '\n') :
    Stops Ascii.isBlank (Utf8.bytes s) := by
  intro b hb
  obtain ⟨c, hc, hmem⟩ := Utf8.exists_of_mem_head?_bytes hb
  obtain ⟨hspace, htab, hreturn, hfeed⟩ := h c hc
  have hspace' : b ≠ 0x20 := Utf8.ne_of_mem_encodeChar (by decide) hspace hmem
  have htab' : b ≠ 0x09 := Utf8.ne_of_mem_encodeChar (by decide) htab hmem
  have hreturn' : b ≠ 0x0D := Utf8.ne_of_mem_encodeChar (by decide) hreturn hmem
  have hfeed' : b ≠ 0x0A := Utf8.ne_of_mem_encodeChar (by decide) hfeed hmem
  simp [Ascii.isBlank, hspace', htab', hreturn', hfeed']

/-- Nothing of a template is skipped where it begins, if it begins with something else than blanks and comments. -/
theorem solid_sourceOf {nodes : List Node} (h : WellFormedNodes inBlock nodes) (hbegins : Template.Begins nodes) :
    Solid (Utf8.bytes (sourceOf chained nodes)) := by
  have hcomment : ∀ n ∈ nodes.head?, n ≠ .comment := by
    rintro n hn rfl
    cases nodes with
    | nil => cases hn
    | cons n nodes =>
      cases hn
      exact hbegins
  rw [← List.append_nil (Utf8.bytes (sourceOf chained nodes))]
  refine ⟨?_, not_comment_sourceOf h hcomment closes_finish.comment⟩
  cases nodes with
  | nil => exact stops_nil _
  | cons n nodes =>
    rw [bytes_sourceOf_cons]
    -- a text has to begin with no blank, and every other node begins with `@`
    by_cases hplain : n.IsPlain
    · cases n with
      | text s =>
        obtain ⟨hne, -⟩ := h.1.resolve_left hplain
        obtain ⟨b, bs, hbytes⟩ := List.exists_cons_of_ne_nil (bytes_ne_nil hne)
        have hstop := stops_text hbegins b (hbytes ▸ rfl)
        rw [bytes_source_plain hplain, hbytes]
        exact stops_cons hstop _
      | _ => exact hplain.elim
    · obtain ⟨b, more, hbytes, -⟩ := bytes_of_not_isPlain h.1 hplain _
      rw [hbytes]
      exact stops_cons (by decide) _

/-- A template that can be written is what its source says. -/
theorem document_source {t : Template} (h : t.WellFormed) : document (Utf8.bytes (t.source chained)) = .ok t [] := by
  obtain ⟨path, body⟩ := t
  have hbody : manyUntil node finish (Utf8.bytes (sourceOf chained body)) = .ok body [] := by
    rw [← List.append_nil (Utf8.bytes _)]
    exact manyUntil_source body h.nodes closes_finish
  have hsolid : Solid (Utf8.bytes (sourceOf chained body)) := solid_sourceOf h.nodes h.begins
  cases path with
  -- the first node is no parent, so the body is read from the beginning
  | none =>
    have hsource : Utf8.bytes ((Template.mk none body).source chained) = Utf8.bytes (sourceOf chained body) := by
      rw [Template.source, Utf8.bytes_append]
      rfl
    have hparent : (parent <* spaces).Refuses (Utf8.bytes (sourceOf chained body)) :=
      ((refuses_word (not_extends_sourceOf h.nodes)).bind _).seqLeft _
    rw [hsource, document, bind_of_ok (spaces_of_solid hsolid), bind_of_ok (optional_of_refuses hparent),
      bind_of_ok hbody]
    rfl
  -- the parent is read with the line break after it, and then the body
  | some path =>
    have hsource : Utf8.bytes ((Template.mk (some path) body).source chained) =
        Bytes.ofAscii ['@', 'e', 'x', 't', 'e', 'n', 'd', 's', '('] ++
          0x22 :: (Utf8.bytes path ++ 0x22 :: 0x29 :: 0x0A :: Utf8.bytes (sourceOf chained body)) := by
      simp only [Template.source, Option.elim_some, Utf8.bytes_append, List.append_assoc]
      rfl
    have hextends : Solid (Bytes.ofAscii ['@', 'e', 'x', 't', 'e', 'n', 'd', 's', '('] ++
        0x22 :: (Utf8.bytes path ++ 0x22 :: 0x29 :: 0x0A :: Utf8.bytes (sourceOf chained body))) :=
      ⟨stops_cons (by decide) _, fun hfront => absurd (second_eq_of_front hfront) (by decide)⟩
    have hparent := seqLeft_of_ok (parent_bytes (h.parent path rfl) _) (spaces_blank (b := 0x0A) (by decide) hsolid)
    rw [hsource, document, bind_of_ok (spaces_of_solid hextends), bind_of_ok (optional_of_ok hparent),
      bind_of_ok hbody]
    rfl

end Grammar

namespace Template

/-- A template that can be written is read back from its source, under whatever name. -/
theorem read_source {t : Template} (h : t.WellFormed) (chained : Bool) (name : String) :
    read name (Utf8.bytes (t.source chained)) = .ok t := by
  rw [read, Grammar.document_source h]
  simp only [h.flaw?_eq_none]

/-- A page with blocks, an `else @if`, and variables that are called like directives. -/
theorem read_source_page :
    let page : Template := ⟨some "base.html", [
      .block "content" [
        .inherited,
        .cond (.not (.var ["h"])) [.text "a"] (some [
          .cond (.call .checkAccess [.str "x,", .int (-1)]) [.output (.var ["if"]), .text "\x7b"] (some [])]),
        .text " else ",
        .text "@",
        .loop "format" (.global ["list"]) [.output (.var ["super", "x"])],
        .comment,
        .snippet "b.html" [("n", .int 0), ("for", .var ["n"])]],
      .cond (.var ["extends"]) [] none,
      .text "\x7d",
      .text "\n"]⟩
    page.WellFormed ∧
    page.source true = "@extends(\"base.html\")\n" ++
      "@block content \x7b@super()" ++
      "@if !h \x7ba\x7d else @if h.check_access(\"x,\", -1) \x7b@if@\x7b\x7d else \x7b\x7d else " ++
      "@@@for format in g.list \x7b@super.x\x7d@* *@@include(\"b.html\", n = 0, for = n)\x7d" ++
      "@if extends \x7b\x7d@\x7d\n" ∧
    read "page.html" (Utf8.bytes (page.source true)) = .ok page := by
  intro page
  have hpage : page.WellFormed := by decide
  exact ⟨hpage, by decide +kernel, read_source hpage true "page.html"⟩

end Template

end ThemedPages
