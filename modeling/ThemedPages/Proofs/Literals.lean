import Mathlib.Data.List.SplitBy
import ThemedPages.Proofs.Checks
import ThemedPages.Proofs.Escaping
import ThemedPages.Proofs.PassingOn
import ThemedPages.Proofs.ReadingTemplates

/-!
# Text that is written literally

Whatever a text is, there is a way to write it so that it is shown as it is: with an `@` before each character that has
a meaning in templates. As a template it is short of the blanks that a template can begin with, and as a block
definition it is all of the text: `Template.literal_shows`.

* `textNodes` are the nodes of a text, one for each character that has a meaning and one for each run of others.
* `Template.read_literal` and `Template.read_literalBlock` read them back, and `renderAll_textsOf` is what they show.
* `Template.Shows` says that some source is a template that shows a text.

The grammar is not looked at again for this. The nodes of a text can be written, what is written for them is the text
with its `@`s, and what can be written is read back. It remains to see what they show, which is all of their characters
in order.
-/

namespace ThemedPages

/-! ## Texts as nodes

A text is split where a character with a meaning comes before or after. So each run is a single such character or has
none of them, and of two runs in a row one is such a character, which is what it takes for them to be written one
after the other. -/

/-- The character has a meaning in templates. -/
def hasMeaning (c : Char) : Bool := c = '@' || c = '\x7b' || c = '\x7d'

/-- A character as it is written to stand for itself. -/
def literalChar (c : Char) : List Char := if hasMeaning c then ['@', c] else [c]

/-- The text as it is written to stand for itself: with an `@` before each character that has a meaning. -/
def Template.literal (t : String) : String := String.ofList (t.toList.flatMap literalChar)

/-- The nodes of a text that is cut into some runs. -/
def textsOf (runs : List (List Char)) : List Node := runs.map fun run => .text (String.ofList run)

/-- The text cut into runs: before and after each character that has a meaning. -/
def runsOf (cs : List Char) : List (List Char) := cs.splitBy fun c d => !hasMeaning c && !hasMeaning d

theorem flatten_runsOf (cs : List Char) : (runsOf cs).flatten = cs := List.flatten_splitBy _ cs

/-- The nodes of a text. -/
def textNodes (cs : List Char) : List Node := textsOf (runsOf cs)

theorem isSpecial_ofList {c : Char} : IsSpecial (String.ofList [c]) ↔ hasMeaning c = true := by
  simp [IsSpecial, hasMeaning, ← String.toList_inj, or_assoc]

/-- The characters are a single one that has a meaning, or some that have none. -/
inductive IsRun : List Char → Prop where
  /-- one that has a meaning -/
  | special {c : Char} (h : hasMeaning c = true) : IsRun [c]
  /-- others -/
  | plain {run : List Char} (hne : run ≠ []) (h : ∀ c ∈ run, hasMeaning c = false) : IsRun run

/-- What is not split is a run: if one of its characters had a meaning, it would be alone. -/
theorem isRun_of_isChain {run : List Char} (hne : run ≠ [])
    (h : run.IsChain fun c d => (!hasMeaning c && !hasMeaning d) = true) : IsRun run := by
  obtain ⟨c, rest, rfl⟩ := List.exists_cons_of_ne_nil hne
  rcases hc : hasMeaning c with _ | _
  · refine .plain hne ?_
    -- each character is without a meaning if the one before it is
    induction rest generalizing c with
    | nil => exact List.forall_mem_singleton.mpr hc
    | cons d rest ih =>
      obtain ⟨hfirst, hrest⟩ := List.isChain_cons_cons.mp h
      have hd : hasMeaning d = false := by simpa [hc] using hfirst
      exact List.forall_mem_cons.mpr ⟨hc, ih d (List.cons_ne_nil _ _) hrest hd⟩
  · cases rest with
    | nil => exact .special hc
    | cons d rest => simp [hc] at h

section

variable {run : List Char} {chained inBlock : Bool}

/-- A run is a text that can be written. -/
theorem IsRun.wellFormed (h : IsRun run) : (Node.text (String.ofList run)).WellFormed inBlock := by
  cases h with
  | special h => exact .inl (isSpecial_ofList.mpr h)
  | plain hne h =>
    refine .inr ⟨by simpa [← String.toList_inj] using hne, fun c hc => ?_⟩
    have hplain := h c (by simpa using hc)
    simpa [hasMeaning, and_assoc] using hplain

/-- What is written for a run are its characters, with an `@` before one that has a meaning. -/
theorem IsRun.source (h : IsRun run) :
    (Node.text (String.ofList run)).source chained = String.ofList (run.flatMap literalChar) := by
  rw [source_text]
  cases h with
  -- a run of one special character is written as an output of it
  | @special c h =>
    rw [if_pos (isSpecial_ofList.mpr h), List.flatMap_singleton, literalChar, if_pos h, ← String.toList_inj]
    simp
  -- a run without special characters is written as it is
  | plain hne h =>
    have hrun : run.flatMap literalChar = run := by
      have hsame : ∀ c ∈ run, literalChar c = [c] := fun c hc => if_neg (by simp [h c hc])
      rw [List.flatMap_congr hsame, List.flatMap_singleton']
    -- nor is it one of the texts that are written as an output
    have hspecial : ¬IsSpecial (String.ofList run) := by
      intro hspecial
      obtain ⟨c, hc⟩ : ∃ c, run = [c] := by
        simp only [IsSpecial, ← String.toList_inj, String.toList_ofList] at hspecial
        rcases hspecial with hrun | hrun | hrun <;> exact ⟨_, hrun⟩
      subst hc
      rw [isSpecial_ofList, h c List.mem_cons_self] at hspecial
      cases hspecial
    rw [if_neg hspecial, hrun]

end

/-- A text is cut into runs, and no two next to each other could be one. -/
theorem isRun_of_mem_runsOf (cs : List Char) :
    (∀ run ∈ runsOf cs, IsRun run) ∧
      (runsOf cs).IsChain fun run next => IsSpecial (String.ofList run) ∨ IsSpecial (String.ofList next) := by
  have hruns : ∀ run ∈ runsOf cs, IsRun run := fun run hrun =>
    isRun_of_isChain (List.ne_nil_of_mem_splitBy hrun) (List.isChain_of_mem_splitBy hrun)
  refine ⟨hruns, (List.isChain_getLast_head_splitBy _ cs).imp_of_mem_imp ?_⟩
  rintro run next hrun hnext ⟨hne, hne', hcut⟩
  cases hruns run hrun with
  | special h => exact .inl (isSpecial_ofList.mpr h)
  | plain _ h =>
    cases hruns next hnext with
    | special h' => exact .inr (isSpecial_ofList.mpr h')
    | plain _ h' =>
      -- there is no cut between characters without a meaning
      rw [h _ (List.getLast_mem hne), h' _ (List.head_mem hne')] at hcut
      cases hcut

section

variable {runs : List (List Char)} (hruns : ∀ run ∈ runs, IsRun run)
include hruns

/-- Runs can be written one after the other if of two in a row one is special. -/
theorem wellFormedNodes_textsOf (inBlock : Bool)
    (hchain : runs.IsChain fun run next => IsSpecial (String.ofList run) ∨ IsSpecial (String.ofList next)) :
    WellFormedNodes inBlock (textsOf runs) := by
  induction runs with
  | nil => trivial
  | cons run rest ih =>
    have hrest := ih (fun run hrun => hruns run (List.mem_cons_of_mem _ hrun)) hchain.tail
    refine ⟨(hruns run List.mem_cons_self).wellFormed, ?_, hrest⟩
    cases rest with
    | nil => trivial
    | cons next rest => exact (List.isChain_cons_cons.mp hchain).1.imp_right fun hspecial hplain => hplain hspecial

theorem sourceOf_textsOf (chained : Bool) :
    sourceOf chained (textsOf runs) = String.ofList (runs.flatten.flatMap literalChar) := by
  induction runs with
  | nil => rfl
  | cons run rest ih =>
    have hrest := ih fun run hrun => hruns run (List.mem_cons_of_mem _ hrun)
    rw [textsOf, List.map_cons, sourceOf_cons, (hruns run List.mem_cons_self).source, ← textsOf, hrest,
      List.flatten_cons, List.flatMap_append, String.ofList_append]

end

/-- The nodes of a text can be written, inside of blocks and outside. -/
theorem wellFormedNodes_textNodes (inBlock : Bool) (cs : List Char) : WellFormedNodes inBlock (textNodes cs) :=
  wellFormedNodes_textsOf (isRun_of_mem_runsOf cs).1 inBlock (isRun_of_mem_runsOf cs).2

/-- The nodes of a text are written as the text is to stand for itself. -/
theorem sourceOf_textNodes (chained : Bool) (cs : List Char) :
    sourceOf chained (textNodes cs) = Template.literal (String.ofList cs) := by
  rw [textNodes, sourceOf_textsOf (isRun_of_mem_runsOf cs).1, flatten_runsOf, Template.literal, String.toList_ofList]

theorem blocksIn_textsOf (runs : List (List Char)) : blocksIn (textsOf runs) = [] := by
  induction runs with
  | nil => rfl
  | cons run rest ih => exact ih

/-- A template can begin with a text that does not begin with a blank. -/
theorem begins_textNodes {cs : List Char} (h : ∀ c ∈ cs.head?, c ≠ ' ' ∧ c ≠ '\t' ∧ c ≠ '\r' ∧ c ≠ '\n') :
    Template.Begins (textNodes cs) := by
  have hne : [] ∉ runsOf cs := List.nil_notMem_splitBy _ cs
  rw [← flatten_runsOf cs] at h
  rw [textNodes]
  generalize runsOf cs = runs at h hne
  cases runs with
  | nil => trivial
  | cons run rest =>
    obtain ⟨c, run, rfl⟩ := List.exists_cons_of_ne_nil fun hnil => hne (hnil ▸ List.mem_cons_self)
    intro x hx
    rw [String.toList_ofList] at hx
    exact h x hx

/-! ## Reading texts back

A block is read back as it is. A template is read from the first character on that is no blank, so what is read back
of a text is what is left of it then. -/

namespace Grammar

/-- Blanks in front of a template make no difference. -/
theorem document_blanks {run s : Bytes} (hrun : ∀ b ∈ run, Ascii.isBlank b = true) (hs : Solid s) :
    document (run ++ s) = document s := by
  rw [document, Parser.bind_of_ok (spaces_blanks hrun hs), Parser.bind_of_ok (spaces_of_solid hs)]

end Grammar

namespace Template

/-- The template can begin with the character without it being a part of it. -/
def skips (c : Char) : Bool := c = ' ' || c = '\t' || c = '\r' || c = '\n'

theorem skips_iff {c : Char} : skips c = true ↔ c = ' ' ∨ c = '\t' ∨ c = '\r' ∨ c = '\n' := by
  simp [skips, or_assoc]

/-- What is left of a text without the blanks at its beginning. -/
def trimmed (cs : List Char) : List Char := cs.dropWhile skips

/-- The template of a text. -/
def ofText (cs : List Char) : Template := ⟨none, textNodes cs⟩

/-- The template of a text in a block. -/
def ofBlock (name : String) (cs : List Char) : Template := ⟨none, [.block name (textNodes cs)]⟩

/-- What is left of a text without the blanks in front can be written as a template. -/
theorem wellFormed_ofText (cs : List Char) : (ofText (trimmed cs)).WellFormed where
  parent := nofun
  nodes := wellFormedNodes_textNodes false _
  begins := begins_textNodes fun c hc => by
    have hskips := List.head?_dropWhile_not skips cs
    rw [trimmed] at hc
    rw [Option.mem_def.mp hc] at hskips
    simpa [skips, and_assoc] using hskips
  blocks := by
    rw [blocks, ofText, textNodes, blocksIn_textsOf]
    exact List.nodup_nil

theorem wellFormed_ofBlock {name : String} (hname : IsName name) (cs : List Char) : (ofBlock name cs).WellFormed where
  parent := nofun
  nodes := ⟨⟨hname, wellFormedNodes_textNodes true cs⟩, trivial, trivial⟩
  begins := trivial
  blocks := by
    rw [blocks, ofBlock, blocksIn, Node.blocks, textNodes, blocksIn_textsOf]
    exact List.nodup_singleton name

theorem isBlank_of_skips {c : Char} (h : skips c = true) {b : UInt8} (hb : b ∈ Utf8.encodeChar c) :
    Ascii.isBlank b = true := by
  rcases skips_iff.mp h with rfl | rfl | rfl | rfl <;> exact List.mem_singleton.mp hb ▸ rfl

/-- The blanks at the beginning of a text stand for themselves. -/
theorem bytes_literal (t : String) : Utf8.bytes (literal t) =
    Utf8.encode (t.toList.takeWhile skips) ++ Utf8.bytes (literal (String.ofList (trimmed t.toList))) := by
  have hplain : ∀ c, skips c = true → literalChar c = [c] := by
    intro c hc
    rcases skips_iff.mp hc with rfl | rfl | rfl | rfl <;> rfl
  have hblanks : (t.toList.takeWhile skips).flatMap literalChar = t.toList.takeWhile skips := by
    rw [List.flatMap_congr fun c hc => hplain c (List.mem_takeWhile_imp hc), List.flatMap_singleton']
  have hsplit : t.toList = t.toList.takeWhile skips ++ trimmed t.toList := List.takeWhile_append_dropWhile.symm
  rw [literal, Utf8.bytes, String.toList_ofList, literal, Utf8.bytes, String.toList_ofList, String.toList_ofList,
    ← Utf8.encode_append]
  conv_lhs => rw [hsplit, List.flatMap_append, hblanks]

/-- A text as it is written to stand for itself is read as the template of the text. -/
theorem document_literal (t : String) :
    Grammar.document (Utf8.bytes (literal t)) = .ok (ofText (trimmed t.toList)) [] := by
  have hwell := wellFormed_ofText t.toList
  have hread : Grammar.document (Utf8.bytes ((ofText (trimmed t.toList)).source false)) = _ :=
    Grammar.document_source hwell
  have hsolid : Grammar.Solid (Utf8.bytes (sourceOf false (textNodes (trimmed t.toList)))) :=
    Grammar.solid_sourceOf hwell.nodes hwell.begins
  have hsource : (ofText (trimmed t.toList)).source false = sourceOf false (textNodes (trimmed t.toList)) :=
    String.empty_append
  have hblanks : ∀ b ∈ Utf8.encode (t.toList.takeWhile skips), Ascii.isBlank b = true := by
    intro b hb
    obtain ⟨c, hc, hb⟩ := List.mem_flatMap.mp hb
    exact isBlank_of_skips (List.mem_takeWhile_imp hc) hb
  rw [bytes_literal, ← sourceOf_textNodes false, Grammar.document_blanks hblanks hsolid, ← hsource, hread]

/-- **A text that is written as a template is read** as the nodes of what is left of it. -/
theorem read_literal (t name : String) :
    Template.read name (Utf8.bytes (literal t)) = .ok (ofText (trimmed t.toList)) :=
  read_eq_ok.mpr ⟨⟨[], document_literal t⟩, (wellFormed_ofText t.toList).flaw?_eq_none⟩

/-- A text in a block, as it is written to stand for itself. -/
def literalBlock (block t : String) : String := "@block " ++ block ++ " \x7b" ++ literal t ++ "\x7d"

theorem source_ofBlock (block t : String) : (ofBlock block t.toList).source false = literalBlock block t := by
  rw [source, ofBlock, sourceOf_cons, source_block, sourceOf_textNodes, String.ofList_toList]
  exact String.empty_append.trans String.append_empty

/-- **A text that is written as a block definition is read** as its nodes. -/
theorem read_literalBlock {block : String} (h : IsName block) (t name : String) :
    Template.read name (Utf8.bytes (literalBlock block t)) = .ok (ofBlock block t.toList) := by
  have hwell := wellFormed_ofBlock h t.toList
  rw [← source_ofBlock]
  exact read_eq_ok.mpr ⟨⟨[], Grammar.document_source hwell⟩, hwell.flaw?_eq_none⟩

end Template

/-! ## Showing texts

Rendering a text writes it and does nothing else. It does not depend on the request or the context, and goes out
nowhere. -/

/-- What happens when a text is shown that is cut into some runs. -/
def Transcript.ofRuns (runs : List (List Char)) : Transcript Unit :=
  ⟨runs.map fun run => .wrote (.markup (String.ofList run)), .ok ()⟩

section

variable {request : Request} {c : Catalog}

/-- Each run is written as it is, as a part of a page that is not escaped. -/
theorem renderAll_textsOf (exits : Exits) (runs : List (List Char)) (place : Place) :
    (renderAll request exits (textsOf runs) place).transcript c = .ofRuns runs := by
  induction runs with
  | nil => rfl
  | cons run rest ih =>
    rw [textsOf, List.map_cons, ← textsOf, renderAll_cons, ih]
    rfl

/-- What is written are the bytes of the text. -/
theorem Transcript.bytes_ofRuns (runs : List (List Char)) :
    (Transcript.ofRuns runs).bytes = Utf8.encode runs.flatten := by
  induction runs with
  | nil => rfl
  | cons run rest ih =>
    rw [List.flatten_cons, Utf8.encode_append, ← ih]
    exact congrArg (· ++ _) (congrArg Utf8.encode String.toList_ofList)

theorem Transcript.calls_ofRuns (runs : List (List Char)) : (Transcript.ofRuns runs).calls = [] := by
  refine List.filterMap_eq_nil_iff.mpr fun e he => ?_
  obtain ⟨run, -, rfl⟩ := List.mem_map.mp he
  rfl

end

namespace Lineage

variable {leaf : Loaded} {site : Site} {request : Request} {rounds : Nat} {context : Context} {cs : List Char}

/-- A page without a parent is its nodes. -/
theorem renderRounds_ofText (h : leaf.template = .ofText cs) :
    ((Lineage.mk leaf []).renderRounds site request rounds context).transcript site.catalog =
      .ofRuns (runsOf cs) := by
  have hbase : (Lineage.mk leaf []).layout.base.template.body = textNodes cs := congrArg Template.body h
  rw [renderRounds, Layout.render, hbase]
  exact renderAll_textsOf _ _ _

/-- A page that is one block is the definition of it, if nothing else defines it. -/
theorem renderRounds_ofBlock {block : String} (h : leaf.template = .ofBlock block cs) :
    ((Lineage.mk leaf []).renderRounds site request rounds context).transcript site.catalog =
      .ofRuns (runsOf cs) := by
  have hbase : (Lineage.mk leaf []).layout.base.template.body = [.block block (textNodes cs)] :=
    congrArg Template.body h
  have hdefinition : (Lineage.mk leaf []).layout.table.definition? block 0 = some ⟨leaf.origin, textNodes cs⟩ := by
    have hblocks : leaf.template.blocks = [(block, textNodes cs)] := by
      rw [h, Template.blocks, Template.ofBlock, blocksIn, Node.blocks, textNodes, blocksIn_textsOf]
      rfl
    simp [definition?_layout, definition?, definitions, templates, definitionsIn, hblocks]
  rw [renderRounds, Layout.render, hbase, renderAll_singleton, Node.render]
  dsimp only
  rw [BlockTable.render, hdefinition]
  exact renderAll_textsOf _ _ _

end Lineage

namespace Template

/-- The source is a template that extends nothing. Wherever the template is found, with any variables, globals, helpers
and theme, it is shown as the text, to the end, and no helper is called. -/
def Shows (source shown : String) : Prop :=
  ∃ template, template.parent = none ∧ (∀ name, Template.read name (Utf8.bytes source) = .ok template) ∧
    ∀ (site : Site) (request : Request) (path : String) (context : Context) (origin : Origin),
      (site.catalog.find ⟨path, request.theme⟩).outcome = .ok ⟨origin, template⟩ →
        let page := site.keep request path context
        page.outcome = .ok () ∧ page.sink.bytes = Utf8.bytes shown ∧ page.page = .ok (.ofHtml shown) ∧ page.calls = []

variable {source : String} {template : Template} {cs : List Char}

/-- A template shows the text that it renders the runs of. -/
theorem shows_of_renders (hparent : template.parent = none)
    (hread : ∀ name, Template.read name (Utf8.bytes source) = .ok template)
    (hrenders : ∀ {leaf : Loaded} {site : Site} {request : Request} {rounds : Nat} {context : Context},
      leaf.template = template →
        ((Lineage.mk leaf []).renderRounds site request rounds context).transcript site.catalog =
          .ofRuns (runsOf cs)) :
    Shows source (String.ofList cs) := by
  refine ⟨template, hparent, hread, fun site request path context origin hfind => ?_⟩
  intro page
  have hlineage := Catalog.lineage_of_parentless hfind hparent
  have htranscript : site.transcript request path context = _ := Lineage.transcript_renderRounds hlineage
  rw [hrenders rfl] at htranscript
  -- finding the page writes nothing and calls nothing
  have hlooks := site.catalog.onlyLooksUp_lineage ⟨path, request.theme⟩
  have houtcome : page.outcome = .ok () := by
    rw [site.keep_outcome, htranscript]
    rfl
  have hpieces : (site.transcript request path context).pieces = (Transcript.ofRuns (runsOf cs)).pieces := by
    rw [htranscript, Transcript.pieces, List.filterMap_append]
    exact congrArg (· ++ _) hlooks.pieces
  have hbytes : page.sink.bytes = Utf8.bytes (String.ofList cs) := by
    rw [site.bytes_keep, Transcript.bytes, hpieces, ← Transcript.bytes, Transcript.bytes_ofRuns, flatten_runsOf,
      Utf8.bytes, String.toList_ofList]
  have hcalls : page.calls = [] := by
    have hevents : page.events = (site.transcript request path context).events := (Run.deliver_memory _ _ _).1
    rw [Delivery.calls, hevents, htranscript, List.filterMap_append]
    exact congrArg₂ (· ++ ·) hlooks.calls (Transcript.calls_ofRuns _)
  refine ⟨houtcome, hbytes, ?_, hcalls⟩
  rw [Delivery.page, houtcome, hbytes, Utf8.lossy_bytes]
  rfl

/-- What a template shows is the page at its path. -/
theorem Shows.page {shown path : String} (h : Shows source shown) (hpath : isTemplatePath path = true)
    (globals : Context) (helpers : Helpers) (context : Context) :
    ((Site.ofCatalog (.ofRoot (.inMemory Root.defaultName [(path, .ok source)]))).keep ⟨none, globals, helpers⟩ path
      context).page = .ok (.ofHtml shown) := by
  obtain ⟨template, -, hread, hshows⟩ := h
  refine (hshows _ _ _ _ ⟨Root.defaultName, path⟩ ?_).2.2.1
  refine Catalog.find_eq_ok_iff.mpr ⟨hpath, .inr ⟨rfl, ?_⟩⟩
  simp [Site.ofCatalog, Catalog.ofRoot, Catalog.load, Catalog.roots?, Catalog.search, Root.inMemory, hread, Except.map]

/-- Any text can be written so that it stands for itself: with an `@` before each `@` and each brace in it. As a
template it is shown without the spaces, tabs and line ends that it begins with, and in a block it is shown as it is. -/
theorem literal_shows (t : String) :
    Shows (literal t) (String.ofList (trimmed t.toList)) ∧
      ∀ block, IsName block → Shows ("@block " ++ block ++ " \x7b" ++ literal t ++ "\x7d") t := by
  refine ⟨shows_of_renders rfl (read_literal t) Lineage.renderRounds_ofText, fun block h => ?_⟩
  have hshows : Shows (literalBlock block t) (String.ofList t.toList) :=
    shows_of_renders rfl (read_literalBlock h t) Lineage.renderRounds_ofBlock
  rwa [String.ofList_toList] at hshows

/-- A text that looks like all kinds of things, and ends in the middle of one. -/
theorem literal_shows_directives :
    let t := "\n@extends(\"base.html\") @* no *@ @if x \x7b@y\x7d else @"
    let site (source : String) : Site := .ofCatalog (.ofRoot (.inMemory Root.defaultName [("page.html", .ok source)]))
    let page (source : String) :=
      ((site source).keep ⟨none, .empty, Helpers.standard⟩ "page.html" (.ofPairs [("x", .int 1)])).page
    page "\n@@extends(\"base.html\") @@* no *@@ @@if x @\x7b@@y@\x7d else @@" =
        .ok (.ofHtml "@extends(\"base.html\") @* no *@ @if x \x7b@y\x7d else @") ∧
      IsName "b" ∧
      page "@block b \x7b\n@@extends(\"base.html\") @@* no *@@ @@if x @\x7b@@y@\x7d else @@\x7d" = .ok (.ofHtml t) := by
  intro t site page
  have hname : IsName "b" := by decide
  have hpath : isTemplatePath "page.html" = true := by decide
  have hliteral : literal t = "\n@@extends(\"base.html\") @@* no *@@ @@if x @\x7b@@y@\x7d else @@" := by decide
  have htrimmed : String.ofList (trimmed t.toList) = "@extends(\"base.html\") @* no *@ @if x \x7b@y\x7d else @" := by
    decide
  have hsource : "@block " ++ "b" ++ " \x7b" ++ literal t ++ "\x7d" =
      "@block b \x7b\n@@extends(\"base.html\") @@* no *@@ @@if x @\x7b@@y@\x7d else @@\x7d" := by
    rw [hliteral]
    decide
  obtain ⟨hshows, hblock⟩ := literal_shows t
  have hshows' := hblock "b" hname
  rw [hliteral, htrimmed] at hshows
  rw [hsource] at hshows'
  exact ⟨hshows.page hpath _ _ _, hname, hshows'.page hpath _ _ _⟩

end Template

end ThemedPages
