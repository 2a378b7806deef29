import ThemedPages.Proofs.Blocks

/-!
# Html in bytes, templates and values

* `Html.Inert` is what bytes have to be that can do nothing to the html around them, and `Html.inert_escapeBytes` says
  that escaped bytes are inert.
* `nodesIn` are the nodes of a template at any depth, and `Template.Calls` says that there is a call of a helper in one.
* `Value.Embeds` says that a value has html in it that was made elsewhere. A value that is reached from another one has
  no other html in it than that one.

These are the notions in which it is said where the html of a page comes from. Each of them is closed under what
rendering does with it: inert passages stay inert side by side, what is in a node is in the template, and following a
path or showing a list brings no html into a value.
-/

namespace ThemedPages

/-! ## Inert bytes

Quotes and angle brackets must not be there at all, and an ampersand only where it begins an entity. Whether it does
is seen from what comes next, so bytes are not taken one by one but passage by passage. -/

namespace Html

/-- What is written for the five characters that html gives a meaning. -/
def entities : List Bytes := ["&quot;", "&amp;", "&#39;", "&lt;", "&gt;"].map Utf8.bytes

/-- The bytes do nothing to the html around them. -/
structure Inert (bs : Bytes) : Prop where
  /-- there are no quotes and no angle brackets -/
  bare (b : UInt8) (h : b ∈ bs) : b ≠ 0x22 ∧ b ≠ 0x27 ∧ b ≠ 0x3C ∧ b ≠ 0x3E
  /-- each ampersand begins an entity -/
  ampersand {rest : Bytes} (h : 0x26 :: rest <:+ bs) : ∃ entity ∈ entities, entity <+: 0x26 :: rest

theorem inert_nil : Inert [] := ⟨nofun, fun h => by simp at h⟩

/-- Inert passages side by side are inert: an entity that ends in the first is still there. -/
theorem Inert.append {bs bs' : Bytes} (h : Inert bs) (h' : Inert bs') : Inert (bs ++ bs') where
  bare b hb := (List.mem_append.mp hb).elim (h.bare b) (h'.bare b)
  ampersand := by
    rintro rest ⟨before, hsplit⟩
    rcases List.append_eq_append_iff.mp hsplit with ⟨cut, hbefore, hafter⟩ | ⟨cut, hbefore, hafter⟩
    · cases cut with
      | nil => exact h'.ampersand (hafter ▸ List.suffix_refl _)
      | cons b cut =>
        -- the ampersand is in the first bytes, and the whole of the entity too
        obtain ⟨rfl, rfl⟩ := List.cons.inj hafter
        obtain ⟨entity, hmem, hprefix⟩ := h.ampersand ⟨before, hbefore.symm⟩
        exact ⟨entity, hmem, hprefix.trans (List.prefix_append _ _)⟩
    · exact h'.ampersand ⟨cut, hafter.symm⟩

theorem inert_flatten {passages : List Bytes} (h : ∀ bs ∈ passages, Inert bs) : Inert passages.flatten := by
  induction passages with
  | nil => exact inert_nil
  | cons bs rest ih =>
    exact (h bs List.mem_cons_self).append (ih fun bs hbs => h bs (List.mem_cons_of_mem _ hbs))

/-- Whether no byte has a meaning in html can be computed. -/
theorem plain_of_all {bs : Bytes} (h : (bs.all fun b => (entity b).isNone) = true) : ∀ b ∈ bs, entity b = none :=
  fun b hb => Option.isNone_iff_eq_none.mp (List.all_eq_true.mp h b hb)

/-- Bytes without a meaning in html are inert. -/
theorem inert_of_plain {bs : Bytes} (h : ∀ b ∈ bs, entity b = none) : Inert bs where
  bare b hb := by
    refine ⟨?_, ?_, ?_, ?_⟩ <;> rintro rfl <;> exact absurd (h _ hb) (by decide)
  ampersand hrest := absurd (h _ (hrest.subset List.mem_cons_self)) (by decide)

theorem inert_of_mem_entities {bs : Bytes} (h : bs ∈ entities) : Inert bs := by
  have hshape : ∀ bs ∈ entities, bs.head? = some 0x26 ∧ (bs.tail.all fun b => (entity b).isNone) = true := by decide
  obtain ⟨hhead, htail⟩ := hshape bs h
  obtain ⟨tail, rfl⟩ := List.head?_eq_some_iff.mp hhead
  have hinert := inert_of_plain (plain_of_all htail)
  refine ⟨fun b hb => ?_, fun {rest} hrest => ?_⟩
  · rcases List.mem_cons.mp hb with rfl | hb
    · decide
    · exact hinert.bare b hb
  · rcases List.suffix_cons_iff.mp hrest with hall | hlater
    · exact ⟨_, h, hall ▸ List.prefix_refl _⟩
    · exact hinert.ampersand hlater

/-- What a byte is escaped as is one of five entities. -/
theorem mem_entities_of_entity {b : UInt8} {bs : Bytes} (h : entity b = some bs) : bs ∈ entities := by
  unfold entity at h
  split_ifs at h <;> cases h <;> decide

/-- What is escaped is inert. -/
theorem inert_escapeBytes (bs : Bytes) : Inert (escapeBytes bs) := by
  rw [escapeBytes, List.flatMap_def]
  refine inert_flatten fun bs' h => ?_
  obtain ⟨b, -, rfl⟩ := List.mem_map.mp h
  rw [escapeByte]
  rcases hb : entity b with _ | bs'
  · exact inert_of_plain fun x hx => List.mem_singleton.mp hx ▸ hb
  · exact inert_of_mem_entities (mem_entities_of_entity hb)

end Html

/-! ## Nodes in nodes

A node is among its own nodes, and so is all that it encloses. What is so for all nodes in a template is said in this
way, and for the parts of it there are inclusions, one for each kind of node with parts. -/

mutual

/-- The nodes in a node, itself first, in the order of the document. -/
def Node.nodes : Node → List Node
  | .loop name list body => .loop name list body :: nodesIn body
  | .cond test body none => .cond test body none :: nodesIn body
  | .cond test body (some otherwise) => .cond test body (some otherwise) :: (nodesIn body ++ nodesIn otherwise)
  | .block name body => .block name body :: nodesIn body
  | node => [node]

/-- The nodes in some nodes at any depth, in the order of the document. -/
def nodesIn : List Node → List Node
  | [] => []
  | node :: nodes => node.nodes ++ nodesIn nodes

end

theorem mem_nodesIn_cons (node : Node) (rest : List Node) : node ∈ nodesIn (node :: rest) := by
  refine List.mem_append_left _ ?_
  unfold Node.nodes
  split <;> exact List.mem_cons_self

/-- What is in the nodes for the case that a condition holds is in the condition. -/
theorem nodesIn_subset_cond (test : Expr) (body : List Node) (otherwise : Option (List Node)) :
    nodesIn body ⊆ (Node.cond test body otherwise).nodes := by
  cases otherwise with
  | none => exact List.subset_cons_self _ _
  | some nodes => exact List.Subset.trans (List.subset_append_left _ _) (List.subset_cons_self _ _)

/-- What is in the nodes for the other case is in the condition. -/
theorem nodesIn_subset_otherwise (test : Expr) (body otherwise : List Node) :
    nodesIn otherwise ⊆ (Node.cond test body (some otherwise)).nodes :=
  List.Subset.trans (List.subset_append_right _ _) (List.subset_cons_self _ _)

/-- What is in the definition of a block in some nodes is in these nodes. -/
theorem DefinedIn.nodesIn_subset {name : String} {body nodes : List Node} (h : DefinedIn name body nodes) :
    nodesIn body ⊆ nodesIn nodes := by
  induction h with
  | here rest => exact List.Subset.trans (List.subset_cons_self _ _) (List.subset_append_left _ _)
  | past node _ ih => exact List.Subset.trans ih (List.subset_append_right _ _)
  | loop x list rest _ ih =>
    exact List.Subset.trans ih (List.Subset.trans (List.subset_cons_self _ _) (List.subset_append_left _ _))
  | cond test otherwise rest _ ih =>
    exact List.Subset.trans ih (List.Subset.trans (nodesIn_subset_cond test _ otherwise) (List.subset_append_left _ _))
  | condElse test inner rest _ ih =>
    exact List.Subset.trans ih (List.Subset.trans (nodesIn_subset_otherwise test inner _) (List.subset_append_left _ _))
  | block x rest _ ih =>
    exact List.Subset.trans ih (List.Subset.trans (List.subset_cons_self _ _) (List.subset_append_left _ _))

/-! ## Calls of helpers -/

mutual

/-- The helpers that are called in an expression. -/
def Expr.helpers : Expr → List Helper
  | .not e => e.helpers
  | .call helper args => helper :: Expr.helpersOf args
  | _ => []

/-- The helpers that are called in some expressions. -/
def Expr.helpersOf : List Expr → List Helper
  | [] => []
  | e :: es => e.helpers ++ Expr.helpersOf es

end

/-- The expressions of a node, without those of the nodes in it. -/
def Node.exprs : Node → List Expr
  | .output e | .loop _ e _ | .cond e _ _ => [e]
  | .snippet _ args => args.map (·.2)
  | _ => []

/-- Somewhere in the template the helper is called. -/
def Template.Calls (t : Template) (helper : Helper) : Prop :=
  ∃ node ∈ nodesIn t.body, ∃ e ∈ node.exprs, helper ∈ e.helpers

/-! ## Html in values

Html that was made elsewhere is a value of its own, and it may be in a list or a map. -/

/-- In the value there is this html, made elsewhere, at some depth. -/
inductive Value.Embeds (html : String) : Value → Prop where
  /-- it is the value -/
  | safe : Embeds html (.safe html)
  /-- it is in an item of a list -/
  | item {items : List Value} {v : Value} (hmem : v ∈ items) (h : Embeds html v) : Embeds html (.list items)
  /-- it is in a field of a map -/
  | field {fields : List (String × Value)} {name : String} {v : Value} (hmem : (name, v) ∈ fields)
    (h : Embeds html v) : Embeds html (.map fields)

section

variable {html : String}

/-- A field has no html in it but what is in the map. -/
theorem Value.Embeds.of_get? {name : String} {v w : Value} (hget : v.get? name = some w) (h : w.Embeds html) :
    v.Embeds html := by
  cases v with
  | map fields =>
    obtain ⟨before, after, hfields, -⟩ := List.lookup_eq_some_iff.mp hget
    have hmem : (name, w) ∈ fields := by simp [hfields]
    exact .field hmem h
  | _ => cases hget

/-- The end of a path has no html in it but what is in the value where it begins. -/
theorem Value.Embeds.of_follow {path : List String} {v w : Value} (hfollow : v.follow path = some w)
    (h : w.Embeds html) : v.Embeds html := by
  induction path generalizing v with
  | nil =>
    obtain rfl := Option.some.inj hfollow
    exact h
  | cons name path ih =>
    obtain ⟨u, hget, hpath⟩ := Option.bind_eq_some_iff.mp hfollow
    exact .of_get? hget (ih hpath)

/-- What is under some name after another thing was put there is that thing, or was there before. -/
theorem ByName.mem_insert {α : Type} {things : ByName α} {name : String} {thing : α} {x : String × α}
    (h : x ∈ things.insert name thing) : x = (name, thing) ∨ x ∈ things := by
  induction things with
  | nil => exact .inl (List.mem_singleton.mp h)
  | cons first rest ih =>
    rw [insert] at h
    split_ifs at h
    · exact List.mem_cons.mp h
    · exact (List.mem_cons.mp h).imp_right (List.mem_cons_of_mem _)
    · rcases List.mem_cons.mp h with rfl | h
      · exact .inr List.mem_cons_self
      · exact (ih h).imp_right (List.mem_cons_of_mem _)

theorem ByName.mem_foldl_insert {α : Type} {pairs : List (String × α)} {things : ByName α} {x : String × α}
    (h : x ∈ pairs.foldl (fun things pair => insert pair.1 pair.2 things) things) : x ∈ things ∨ x ∈ pairs := by
  induction pairs generalizing things with
  | nil => exact .inl h
  | cons pair rest ih =>
    rcases ih h with h | h
    · rcases mem_insert h with rfl | h
      · exact .inr List.mem_cons_self
      · exact .inl h
    · exact .inr (List.mem_cons_of_mem _ h)

theorem ByName.mem_of_mem_ofPairs {α : Type} {pairs : List (String × α)} {x : String × α} (h : x ∈ ofPairs pairs) :
    x ∈ pairs :=
  (mem_foldl_insert h).resolve_left List.not_mem_nil

/-- The only answers of helpers that have html in them are those to markdown. -/
theorem Helpers.eq_of_embeds_answer {helpers : Helpers} {call : HelperCall} (h : (helpers.answer call).Embeds html) :
    ∃ text, call = .markdown text ∧ html = helpers.markdown text := by
  cases call with
  | markdown text =>
    cases h
    exact ⟨text, rfl, rfl⟩
  | _ => cases h

/-- Only one helper makes html from a text. -/
theorem Helper.eq_markdown_of_call? {helper : Helper} {args : List Value} {text : String}
    (h : helper.call? args = some (.markdown text)) : helper = .markdown := by
  unfold call? at h
  split at h <;> cases h
  rfl

namespace Value

mutual

/-- The markup that a value adds to a page is in the value, or it is between the items of a list. -/
theorem embeds_of_mem_pieces : ∀ {v : Value}, .markup html ∈ v.pieces → v.Embeds html ∨ html = ", "
  | safe _, h => by
    rw [pieces, List.mem_singleton] at h
    cases h
    exact .inl .safe
  | list items, h => by
    rw [pieces] at h
    refine (embeds_of_mem_listPieces h).imp_left ?_
    rintro ⟨v, hmem, hv⟩
    exact .item hmem hv
  | null, h | bool _, h | int _, h | float _, h | string _, h | map _, h => by simp [pieces] at h

/-- The pieces of a list are those of its items, with commas between them that are no html of the value. -/
theorem embeds_of_mem_listPieces : ∀ {vs : List Value}, .markup html ∈ listPieces vs →
    (∃ v ∈ vs, v.Embeds html) ∨ html = ", "
  | v :: vs, h => by
    rw [listPieces] at h
    rcases List.mem_append.mp h with h | h
    · exact (embeds_of_mem_pieces h).imp_left fun hv => ⟨v, List.mem_cons_self, hv⟩
    · exact (embeds_of_mem_restPieces h).imp_left fun ⟨w, hw, hmem⟩ => ⟨w, List.mem_cons_of_mem _ hw, hmem⟩

theorem embeds_of_mem_restPieces : ∀ {vs : List Value}, .markup html ∈ restPieces vs →
    (∃ v ∈ vs, v.Embeds html) ∨ html = ", "
  | v :: vs, h => by
    rw [restPieces, List.cons_append] at h
    rcases List.mem_cons.mp h with h | h
    · cases h
      exact .inr rfl
    · rcases List.mem_append.mp h with h | h
      · exact (embeds_of_mem_pieces h).imp_left fun hv => ⟨v, List.mem_cons_self, hv⟩
      · exact (embeds_of_mem_restPieces h).imp_left fun ⟨w, hw, hmem⟩ => ⟨w, List.mem_cons_of_mem _ hw, hmem⟩

end

end Value

end

end ThemedPages
