import ThemedPages.Checksum
import ThemedPages.Render

/-!
# Sites

A site renders the pages of a catalog. Like the catalog's look-ups, that changes nothing, and `Site.after` is the site
that remembers what was found.

A page may have no end, in that it goes round and round. Each round is like the one before, so that either it writes
something or nothing is ever written again. `Site.render` ends in `Stop.endless` after a single round. But where the
page is written to a sink that only has room for so many bytes, the sink is full after as many rounds and one more, and
`Site.deliver` follows the page as far as that.
-/

namespace ThemedPages

/-- A catalog, and how deep its pages may go. -/
structure Site where
  /-- where the templates are -/
  catalog : Catalog
  /-- how many snippets may be nested in each other -/
  snippetLimit : Nat

namespace Site

/-- How many snippets may be nested in each other where nothing else is said. -/
def defaultSnippetLimit : Nat := 32

/-- The site of a catalog, with the usual limit. -/
def ofCatalog (catalog : Catalog) : Site := ⟨catalog, defaultSnippetLimit⟩

/-! ## Rendering -/

/-- What is to be done to render the page at a path with at most so many snippets nested in each other. A snippet is
rendered on its own in the same way, with its parameters as the context. -/
def renderNested (site : Site) (request : Request) (rounds : Nat) : Nat → String → Context → Run Unit
  | 0, path, context =>
    request.render (fun path _ => Run.fail (.includeDepth path site.snippetLimit)) rounds path context
  | n + 1, path, context => request.render (site.renderNested request rounds n) rounds path context

/-- What is to be done to render the page at a path, where a page without end is followed for so many rounds. -/
def renderRounds (site : Site) (request : Request) (rounds : Nat) (path : String) (context : Context) : Run Unit :=
  site.renderNested request rounds site.snippetLimit path context

/-- What is to be done to render the page at a path. -/
def render (site : Site) (request : Request) (path : String) (context : Context) : Run Unit :=
  site.renderRounds request 1 path context

/-- What happens when the page at a path is rendered. -/
def transcript (site : Site) (request : Request) (path : String) (context : Context) : Transcript Unit :=
  (site.render request path context).transcript site.catalog

/-- Renders the page at a path into a sink. -/
def deliver {σ : Type} (site : Site) (request : Request) (path : String) (context : Context) (sink : Sink σ)
    (st : σ) : Delivery σ :=
  let rounds := ((sink.room st).getD 0) + 1
  (site.renderRounds request rounds path context).deliver site.catalog sink st

/-! ## Remembering -/

/-- The site that remembers what was found among some events. -/
def after (site : Site) (events : List Event) : Site :=
  { site with catalog := site.catalog.remember events }

end Site

/-! ## Pages that are sent -/

/-- A page as it is sent. -/
structure Page where
  /-- what is shown -/
  html : String
  /-- a short checksum of it -/
  etag : String
  deriving DecidableEq, Repr

/-- The page that some text is. -/
def Page.ofHtml (html : String) : Page := { html, etag := Checksum.slug (Utf8.bytes html) }

/-- Renders the page at a path into memory. -/
def Site.keep (site : Site) (request : Request) (path : String) (context : Context) : Delivery Sink.Kept :=
  site.deliver request path context Sink.memory .nothing

/-- The page that was delivered to memory, if it was to the end. -/
def Delivery.page (d : Delivery Sink.Kept) : Except Stop Page :=
  d.outcome.map fun _ => Page.ofHtml (Utf8.lossy d.sink.bytes)

end ThemedPages
