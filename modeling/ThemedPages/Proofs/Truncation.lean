import ThemedPages.Proofs.Endings

/-!
# Pages that are cut off

A sink that fails cuts a page off, and does nothing else to it: it is left with as many bytes as it keeps, the first of
the page, and the render ends by its failure instead of what comes after. Neither how much of an offer the sink takes at
a time nor how the page is split into offers makes a difference (`Site.deliver_bounded`).

What a page does not depend on is how it is written, so the events up to the failure are the first of those of the whole
page, and so are the calls of helpers. That the page may be endless makes no difference either: the sink fails in time.
-/

namespace ThemedPages

/-- The helpers that are called in a delivery, in order. -/
def Delivery.calls {σ : Type} (d : Delivery σ) : List HelperCall := d.events.filterMap Event.call?

/-- What is left of a page that is written to a sink which keeps at most so many bytes. -/
inductive Delivery.Cut (limit : Nat) (reason : String) (t : Transcript Unit) : Delivery Sink.Kept → Prop where
  /-- all of it, if it is not longer -/
  | whole {kept : Sink.Kept} (hlength : t.bytes.length ≤ limit) (hbytes : kept.bytes = t.bytes) :
    Cut limit reason t ⟨t.events, t.outcome, kept⟩
  /-- its beginning, if it is -/
  | short {events : List Event} {kept : Sink.Kept} (hlength : limit < t.bytes.length)
    (hbytes : kept.bytes = t.bytes.take limit) (hevents : events <+: t.events) :
    Cut limit reason t ⟨events, .error (.error (.io reason)), kept⟩

/-- What a bounded sink is left with of the page of a run. -/
theorem Run.deliver_cut (r : Run Unit) (c : Catalog) (limit : Nat) {chunk : Nat} (hchunk : 0 < chunk)
    (reason : String) :
    (r.deliver c (.bounded (some limit) (some chunk) reason) .nothing).Cut limit reason (r.transcript c) := by
  have hstart : Sink.Kept.nothing.bytes = [] ∧ Sink.Kept.nothing.size = ([] : Bytes).length ∧
      ([] : Bytes).length ≤ limit := ⟨rfl, rfl, Nat.zero_le _⟩
  have hlogged := r.deliver_logged (Sink.logs_bounded_some limit hchunk reason) hstart c
  generalize r.deliver c (.bounded (some limit) (some chunk) reason) .nothing = d at hlogged
  cases hlogged with
  | all h =>
    obtain ⟨hbytes, -, hlength⟩ := h
    exact .whole hlength hbytes
  | @part before after e cut rest reason' kept hevents hcut hrest h =>
    obtain ⟨hbytes, hlimit, rfl⟩ := h
    -- the sink is full before the end of the page
    have hpage : (r.transcript c).bytes = (bytesOf before ++ cut) ++ (rest ++ bytesOf after) := by
      rw [Transcript.bytes_eq, hevents, bytesOf_append, bytesOf_cons, hcut]
      simp
    rw [List.nil_append] at hbytes hlimit
    have hleft := List.length_pos_iff.mpr hrest
    refine .short ?_ ?_ ?_
    · rw [hpage, List.length_append, hlimit, List.length_append]
      omega
    · rw [hbytes, hpage, ← hlimit, List.take_left]
    · rw [hevents]
      exact List.prefix_append _ _

namespace Site

variable {site : Site} {request : Request} {path : String} {context : Context}

/-- A page that ends is the same, however often it would be gone round. -/
theorem renderRounds_congr {rounds rounds' : Nat} (hrounds' : 0 < rounds')
    (hends : ((site.renderRounds request rounds path context).transcript site.catalog).outcome ≠ .error .endless) :
    (site.renderRounds request rounds path context).transcript site.catalog =
      (site.renderRounds request rounds' path context).transcript site.catalog := by
  obtain ⟨depth, hdepth⟩ := ((renderRounds_nears path context).eq hends).exists
  rw [hdepth] at hends ⊢
  exact (renderRounds_transcript hrounds' hends).symm

/-- All that is written to memory is kept. -/
theorem keep_logged (site : Site) (request : Request) (path : String) (context : Context) :
    (site.keep request path context).Logged (fun log kept => kept.bytes = log) (fun _ _ _ => False) []
      (site.transcript request path context) :=
  Run.deliver_logged Sink.logs_memory Sink.Kept.bytes_nothing _ _

/-- What is kept of a page are the bytes of its parts. -/
theorem bytes_keep (site : Site) (request : Request) (path : String) (context : Context) :
    (site.keep request path context).sink.bytes = (site.transcript request path context).bytes := by
  have hlogged := site.keep_logged request path context
  generalize site.keep request path context = page at hlogged
  cases hlogged with
  | all hbytes => exact hbytes
  | part _ _ _ h => exact h.elim

/-- Where a page ends, writing it to a sink that keeps at most so many bytes, and fails when it can not take any more,
only cuts it off: if the page is not longer, everything is as if the sink were memory, and if it is, the sink is left
with its beginning, and the render ends with the failure of the sink after a part of what is done otherwise. -/
theorem deliver_bounded (site : Site) (request : Request) (path : String) (context : Context)
    (hends : (site.keep request path context).outcome ≠ .error .endless) (limit : Nat) {chunk : Nat}
    (hchunk : 0 < chunk) (reason : String) :
    let page := site.keep request path context
    let d := site.deliver request path context (.bounded (some limit) (some chunk) reason) .nothing
    (page.sink.bytes.length ≤ limit →
      d.sink.bytes = page.sink.bytes ∧ d.outcome = page.outcome ∧ d.events = page.events) ∧
    (limit < page.sink.bytes.length →
      d.sink.bytes = page.sink.bytes.take limit ∧ d.outcome = .error (.error (.io reason)) ∧
        d.events <+: page.events ∧ d.calls <+: page.calls) := by
  intro page d
  have hpage := site.keep_logged request path context
  have hd : d.Cut limit reason (site.transcript request path context) := by
    rw [keep_outcome] at hends
    -- the page ends, so with the rounds that the limit gives it ends in the same way
    have hrounds := renderRounds_congr (Nat.succ_pos limit) hends
    rw [transcript, render, hrounds]
    have hcut := (site.renderRounds request (limit + 1) path context).deliver_cut site.catalog limit hchunk reason
    exact hcut
  change Delivery.Logged _ _ _ _ page at hpage
  generalize page = page, d = d at hpage hd
  cases hpage with
  -- memory takes everything, so the page is not cut
  | part _ _ _ h => exact h.elim
  | all hbytes =>
    rw [List.nil_append] at hbytes
    rw [hbytes]
    cases hd with
    | whole hlength hkept => exact ⟨fun _ => ⟨hkept, rfl, rfl⟩, fun hlt => absurd hlength (Nat.not_le_of_lt hlt)⟩
    | short hlength hkept hevents =>
      exact ⟨fun hle => absurd hle (Nat.not_le_of_lt hlength),
        fun _ => ⟨hkept, rfl, hevents, hevents.filterMap _⟩⟩

/-- The default template `page.html`, which asks for a variable that there is not after one that there is. -/
def faulty : Site :=
  .ofCatalog (.ofRoot (.inMemory Root.defaultName [("page.html", .ok "a@x@h.translate(x)@y")]))

theorem deliver_bounded_entity :
    let request : Request := ⟨none, .empty, Helpers.standard⟩
    let context := Context.ofPairs [("x", .string "<b>")]
    let page := faulty.keep request "page.html" context
    let d := faulty.deliver request "page.html" context (.bounded (some 3) (some 2) "full") .nothing
    page.outcome = .error (.error (.undefined "default:page.html" "y")) ∧ 3 < page.sink.bytes.length ∧ 0 < 2 ∧
      d.sink.bytes = page.sink.bytes.take 3 ∧ d.outcome = .error (.error (.io "full")) ∧
      d.calls <+: page.calls := by
  intro request context page d
  have hpage : page.outcome = .error (.error (.undefined "default:page.html" "y")) := by decide +kernel
  have hlength : 3 < page.sink.bytes.length := by decide +kernel
  have hends : page.outcome ≠ .error .endless := by simp [hpage]
  obtain ⟨hbytes, houtcome, -, hcalls⟩ :=
    (deliver_bounded faulty request "page.html" context hends 3 Nat.two_pos "full").2 hlength
  exact ⟨hpage, hlength, Nat.two_pos, hbytes, houtcome, hcalls⟩

end Site

end ThemedPages
