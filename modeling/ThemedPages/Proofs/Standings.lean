import ThemedPages.Proofs.Blocks
import ThemedPages.Proofs.Exits

/-!
# Standings

The values that the variables of loops can have in a page are the items of the lists in its variables and in the
globals; helpers give none. So there are only so many ways to stand in a block definition of a layout, and
`Layout.standings` counts them: `Lineage.length_allStandings`.

* `Value.items` are the items of all lists in a value, at any depth. What is found in a value has no items but those.
* `Scope.Drawn` says of the variables at a place that each is one of the page or one of a loop over such a list.
  `Comes.drawn` carries this along the way to any place in a block definition: it holds of the page, and loops keep it.
* `Lineage.allStandings` lists the ways to stand in a block definition: which definition it is, and which item each of
  the variables of loops has, if any. Two places with the same standing have the same variables (`Scope.Drawn.same`), so
  a render that goes on for longer than there are standings comes to one of them again.
-/

namespace ThemedPages

/-! ## Items

The items of a value are listed by its own recursion, and counted by the same one, so the number is known without the
list. That what is inside of an item is listed as well is the induction on the value. -/

namespace Value

mutual

/-- The items of the lists in a value, at any depth. -/
def items : Value → List Value
  | list values => listItems values
  | map fields => fieldItems fields
  | _ => []

/-- The items of a list, with those of the lists in them. -/
def listItems : List Value → List Value
  | [] => []
  | v :: vs => v :: (v.items ++ listItems vs)

/-- The items of the lists in the fields of a map. -/
def fieldItems : List (String × Value) → List Value
  | [] => []
  | (_, v) :: fields => v.items ++ fieldItems fields

end

mutual

/-- There are as many items as are counted. The list and the number go through the value in the same way. -/
theorem length_items : ∀ v : Value, v.items.length = v.itemCount
  | list values => by rw [items, itemCount, length_listItems]
  | map fields => by rw [items, itemCount, length_fieldItems]
  | null | bool _ | int _ | float _ | string _ | safe _ => by simp [items, itemCount]

theorem length_listItems : ∀ vs : List Value, (listItems vs).length = listItemCount vs
  | [] => rfl
  | v :: vs => by
    rw [listItems, listItemCount, List.length_cons, List.length_append, length_items v, length_listItems vs]
    omega

theorem length_fieldItems : ∀ fields : List (String × Value), (fieldItems fields).length = fieldItemCount fields
  | [] => rfl
  | (_, v) :: fields => by
    rw [fieldItems, fieldItemCount, List.length_append, length_items v, length_fieldItems fields]

end

mutual

/-- The items in an item are items themselves. -/
theorem items_subset_of_mem : ∀ {v x : Value}, x ∈ v.items → x.items ⊆ v.items
  | list values, x, h => by
    rw [items] at h ⊢
    exact items_subset_listItems h
  | map fields, x, h => by
    rw [items] at h ⊢
    exact items_subset_fieldItems h
  | null, _, h | bool _, _, h | int _, _, h | float _, _, h | string _, _, h | safe _, _, h => by
    simp [items] at h

theorem items_subset_listItems : ∀ {vs : List Value} {x : Value}, x ∈ listItems vs → x.items ⊆ listItems vs
  | v :: vs, x, h => by
    rw [listItems] at h ⊢
    rcases List.mem_cons.mp h with rfl | h
    · exact fun _ hy => List.mem_cons_of_mem _ (List.mem_append_left _ hy)
    · rcases List.mem_append.mp h with h | h
      · exact fun _ hy => List.mem_cons_of_mem _ (List.mem_append_left _ (items_subset_of_mem h hy))
      · exact fun _ hy => List.mem_cons_of_mem _ (List.mem_append_right _ (items_subset_listItems h hy))

/-- What is inside of an item in some fields is listed with those fields. -/
theorem items_subset_fieldItems : ∀ {fields : List (String × Value)} {x : Value},
    x ∈ fieldItems fields → x.items ⊆ fieldItems fields
  | (_, v) :: fields, x, h => by
    rw [fieldItems] at h ⊢
    rcases List.mem_append.mp h with h | h
    · exact List.Subset.trans (items_subset_of_mem h) (List.subset_append_left _ _)
    · exact List.Subset.trans (items_subset_fieldItems h) (List.subset_append_right _ _)

end

theorem subset_listItems (vs : List Value) : vs ⊆ listItems vs := by
  induction vs with
  | nil => exact List.nil_subset _
  | cons v vs ih =>
    intro x hx
    rw [listItems]
    rcases List.mem_cons.mp hx with rfl | hx
    · exact List.mem_cons_self
    · exact List.mem_cons_of_mem _ (List.mem_append_right _ (ih hx))

/-- A field has no items but those of the map that it is in. -/
theorem items_subset_of_lookup {name : String} {v : Value} {fields : List (String × Value)}
    (h : fields.lookup name = some v) : v.items ⊆ fieldItems fields := by
  induction fields with
  | nil => cases h
  | cons field fields ih =>
    obtain ⟨n, w⟩ := field
    rw [fieldItems]
    rw [List.lookup_cons] at h
    split at h
    · obtain rfl := Option.some.inj h
      exact List.subset_append_left _ _
    · exact List.Subset.trans (ih h) (List.subset_append_right _ _)

/-- The end of a path has no items but those of the value where it begins. -/
theorem items_subset_of_follow {path : List String} {v w : Value} (h : v.follow path = some w) :
    w.items ⊆ v.items := by
  induction path generalizing v with
  | nil =>
    obtain rfl := Option.some.inj h
    exact List.Subset.refl _
  | cons name path ih =>
    obtain ⟨u, hget, hfollow⟩ := Option.bind_eq_some_iff.mp h
    cases v with
    | map fields =>
      rw [items]
      exact List.Subset.trans (ih hfollow) (items_subset_of_lookup hget)
    | _ => cases hget

end Value

/-! ## The variables at a place

The pool is what loops in a page can go through: all items in the variables of the page and in the globals. It holds
all that is inside of its items too, so a loop over one of these stays in it. -/

/-- The items that variables of loops can have in a page with some variables. -/
def Request.pool (request : Request) (context : Context) : List Value :=
  Value.fieldItems context.vars ++ Value.fieldItems request.globals.vars

/-- The pool has the items of its items. -/
theorem Request.items_subset_pool {request : Request} {context : Context} {x : Value}
    (h : x ∈ request.pool context) : x.items ⊆ request.pool context := by
  rcases List.mem_append.mp h with h | h
  · exact List.Subset.trans (Value.items_subset_fieldItems h) (List.subset_append_left _ _)
  · exact List.Subset.trans (Value.items_subset_fieldItems h) (List.subset_append_right _ _)

/-- The variables are those of a page, and of loops over what there is in the page. -/
structure Scope.Drawn (request : Request) (context : Context) (names : List String) (scope : Scope) : Prop where
  /-- the variables of the page -/
  page : scope.context = context
  /-- the variables of loops -/
  bound : ∀ x ∈ scope.bound, x.1 ∈ names ∧ x.2 ∈ request.pool context

section

variable {c : Catalog} {request : Request} {context : Context} {names : List String} {scope scope' : Scope}

namespace Scope

theorem Drawn.ofContext : (Scope.ofContext context).Drawn request context names :=
  ⟨rfl, fun _ h => absurd h List.not_mem_nil⟩

/-- **A loop keeps it**, if its items are in the pool. -/
theorem Drawn.bind (h : scope.Drawn request context names) {name : String} {value : Value} (hname : name ∈ names)
    (hvalue : value ∈ request.pool context) : (scope.bind name value).Drawn request context names := by
  refine ⟨h.page, fun x hx => ?_⟩
  rcases List.mem_cons.mp hx with rfl | hx
  · exact ⟨hname, hvalue⟩
  · exact h.bound x hx

theorem mem_bound_of_lookup {name : String} {value : Value} (h : scope.bound.lookup name = some value) :
    (name, value) ∈ scope.bound := by
  obtain ⟨before, after, hbound, -⟩ := List.lookup_eq_some_iff.mp h
  simp [hbound]

/-- A variable has lists of the pool only, be it one of a loop or one of the page. -/
theorem Drawn.items_subset_of_get? (h : scope.Drawn request context names) {name : String} {value : Value}
    (hget : scope.get? name = some value) : value.items ⊆ request.pool context := by
  unfold get? at hget
  split at hget
  · next hlookup =>
    obtain rfl := Option.some.inj hget
    exact Request.items_subset_pool (h.bound _ (mem_bound_of_lookup hlookup)).2
  · rw [h.page] at hget
    exact List.Subset.trans (Value.items_subset_of_lookup hget) (List.subset_append_left _ _)

/-- So has whatever a path that begins with a variable leads to. -/
theorem Drawn.items_subset_of_follow (h : scope.Drawn request context names) {path : List String} {value : Value}
    (hfollow : scope.follow path = some value) : value.items ⊆ request.pool context := by
  cases path with
  | nil => cases hfollow
  | cons name path =>
    obtain ⟨u, hget, hpath⟩ := Option.bind_eq_some_iff.mp hfollow
    exact List.Subset.trans (Value.items_subset_of_follow hpath) (h.items_subset_of_get? hget)

end Scope

/-- What a path into the globals leads to has lists of the pool only, as the globals are in it. -/
theorem Request.items_subset_of_follow {path : List String} {value : Value}
    (h : request.follow path = some value) : value.items ⊆ request.pool context := by
  have hitems := Value.items_subset_of_follow h
  rw [Value.items] at hitems
  exact List.Subset.trans hitems (List.subset_append_right _ _)

/-- The answer of a helper has no lists in it. -/
theorem Helpers.items_answer (helpers : Helpers) (call : HelperCall) : (helpers.answer call).items = [] := by
  cases call <;> simp [answer, Value.items]

theorem Expr.eq_some_of_orUndefined {origin : Origin} {e : Expr} {found : Option Value} {value : Value}
    (h : ((Expr.orUndefined origin e found).transcript c).outcome = .ok value) : found = some value := by
  cases found with
  | none => cases h
  | some v => exact congrArg some (Except.ok.inj h)

/-- An expression has no lists but those of the page. -/
theorem Expr.items_subset_of_eval (hscope : scope.Drawn request context names) {origin : Origin} {e : Expr}
    {value : Value} (h : ((e.eval request scope origin).transcript c).outcome = .ok value) :
    value.items ⊆ request.pool context := by
  -- only what is looked up can have items of its own
  have hnone : ∀ {v : Value}, v = value → v.items = [] → value.items ⊆ request.pool context := by
    rintro _ rfl hv
    rw [hv]
    exact List.nil_subset _
  cases e with
  | var path =>
    rw [Expr.eval] at h
    exact hscope.items_subset_of_follow (eq_some_of_orUndefined h)
  | global path =>
    rw [Expr.eval] at h
    exact Request.items_subset_of_follow (eq_some_of_orUndefined h)
  | str s =>
    rw [Expr.eval] at h
    exact hnone (Except.ok.inj h) (by simp [Value.items])
  | int n =>
    rw [Expr.eval] at h
    exact hnone (Except.ok.inj h) (by simp [Value.items])
  | not e =>
    rw [Expr.eval] at h
    obtain ⟨b, -, hb⟩ := Transcript.outcome_bind_eq_ok.mp h
    exact hnone (Except.ok.inj hb) (by simp [Value.items])
  | call helper args =>
    rw [Expr.eval] at h
    obtain ⟨values, -, hcall⟩ := Transcript.outcome_bind_eq_ok.mp h
    dsimp only [Expr.callHelper] at hcall
    split at hcall
    · next made _ =>
      obtain ⟨_, -, hanswer⟩ := Transcript.outcome_bind_eq_ok.mp hcall
      exact hnone (Except.ok.inj hanswer) (request.helpers.items_answer made)
    · cases hcall

/-- A loop goes through items of the page. -/
theorem items_subset_of_loopItems {origin : Origin} {e : Expr} {value : Value} {items : List Value}
    (hvalue : value.items ⊆ request.pool context)
    (h : ((loopItems origin e value).transcript c).outcome = .ok items) : items ⊆ request.pool context := by
  cases value with
  | list values =>
    obtain rfl := Except.ok.inj h
    rw [Value.items] at hvalue
    exact List.Subset.trans (Value.subset_listItems _) hvalue
  | null =>
    obtain rfl := Except.ok.inj h
    exact List.nil_subset _
  | _ => cases h

/-- In a page, block definitions are come to with variables of the page and of its loops. -/
theorem Comes.drawn {exits : Exits} {nodes : List Node} {place : Place} {exit : Exit}
    (hcomes : Comes c request exits nodes place exit) (hnames : loopNamesIn nodes ⊆ names)
    (hplace : place.scope.Drawn request context names) {name : String} {level : Nat} {place' : Place}
    (hexit : exit = .block name level place') : place'.scope.Drawn request context names := by
  induction hcomes with
  | block => cases hexit; exact hplace
  | inherited => cases hexit; exact hplace
  | snippet => cases hexit
  | loop rest hlist hitems _ _ ih =>
    rw [loopNamesIn, Node.loopNames] at hnames
    -- the variable of the loop has an item of a list, which is one of the page
    have hvalue := Expr.items_subset_of_eval hplace hlist
    have hitem := items_subset_of_loopItems hvalue hitems (List.mem_append_right _ List.mem_cons_self)
    refine ih (fun x hx => hnames ?_) (hplace.bind (hnames List.mem_cons_self) hitem) hexit
    exact List.mem_cons_of_mem _ (List.mem_append_left _ hx)
  | holds otherwise rest _ _ ih =>
    rw [loopNamesIn] at hnames
    refine ih (List.Subset.trans ?_ hnames) hplace hexit
    cases otherwise with
    | none => exact List.subset_append_left _ _
    | some nodes =>
      rw [Node.loopNames, List.append_assoc]
      exact List.subset_append_left _ _
  | fails body rest _ _ ih =>
    rw [loopNamesIn, Node.loopNames] at hnames
    refine ih (List.Subset.trans ?_ hnames) hplace hexit
    exact fun _ hx => List.mem_append_left _ (List.mem_append_right _ hx)
  | later _ _ ih =>
    rw [loopNamesIn] at hnames
    exact ih (List.Subset.trans (List.subset_append_right _ _) hnames) hplace hexit

/-! ## Counting standings

A standing has for each name of a loop the item that the variable of this name has, or nothing where there is no loop
of that name around. With a finite pool and finitely many names there are finitely many of these. -/

namespace Scope

/-- Which item each variable of a loop has, if any. -/
def standing (names : List String) (scope : Scope) : List (Option Value) :=
  names.map fun name => scope.bound.lookup name

/-- Nothing else makes a difference. -/
theorem Drawn.same (h : scope.Drawn request context names) (h' : scope'.Drawn request context names)
    (hstanding : scope.standing names = scope'.standing names) : scope.Same scope' := by
  intro name
  have hlookup : scope.bound.lookup name = scope'.bound.lookup name := by
    by_cases hname : name ∈ names
    · exact List.map_inj_left.mp hstanding name hname
    · -- a name of no loop is a name of no variable of a loop
      have hnone : ∀ {s : Scope}, s.Drawn request context names → s.bound.lookup name = none := by
        intro s hs
        rcases hs' : s.bound.lookup name with _ | value
        · rfl
        · exact (hname (hs.bound _ (mem_bound_of_lookup hs')).1).elim
      rw [hnone h, hnone h']
  rw [get?, get?, hlookup, h.page, h'.page]

end Scope

/-- The lists of a length with entries from a list. -/
def choices {α : Type} (options : List α) : Nat → List (List α)
  | 0 => [[]]
  | n + 1 => options.flatMap fun a => (choices options n).map (a :: ·)

/-- There are as many lists of a length as there are ways to choose each entry. -/
theorem length_choices {α : Type} (options : List α) (n : Nat) : (choices options n).length = options.length ^ n := by
  induction n with
  | zero => rfl
  | succ n ih => simp [choices, List.length_flatMap, ih, Nat.pow_succ, Nat.mul_comm]

theorem mem_choices {α : Type} {options as : List α} (h : as ⊆ options) : as ∈ choices options as.length := by
  induction as with
  | nil => exact List.mem_singleton.mpr rfl
  | cons a as ih =>
    obtain ⟨ha, has⟩ := List.cons_subset.mp h
    exact List.mem_flatMap.mpr ⟨a, ha, List.mem_map.mpr ⟨as, ih has, rfl⟩⟩

/-- The ways to stand in a block definition of a page with some variables. -/
def Lineage.allStandings (l : Lineage) (request : Request) (context : Context) :
    List ((String × Nat) × List (Option Value)) :=
  l.standpoints ×ˢ choices (none :: (request.pool context).map some) l.allLoopNames.length

/-- **There are as many standings as the bound on rounds counts:** definitions times choices of an item for each name.
-/
theorem Lineage.length_allStandings (l : Lineage) (request : Request) (context : Context) :
    (l.allStandings request context).length = l.layout.standings request context := by
  have hpool : (request.pool context).length =
      Value.fieldItemCount context.vars + Value.fieldItemCount request.globals.vars := by
    rw [Request.pool, List.length_append, Value.length_fieldItems, Value.length_fieldItems]
  rw [allStandings, List.length_product, length_standpoints, length_choices, List.length_cons, List.length_map, hpool,
    Layout.standings]
  -- without definitions there is nothing to be counted
  by_cases h : l.layout.definitions = 0
  · simp [h]
  · rw [if_neg h]
    rfl

/-- Wherever a page stands in a block definition, it stands in one of these ways. -/
theorem Lineage.mem_allStandings {l : Lineage} {name : String} {level : Nat}
    (hdefinition : (l.definition? name level).isSome) (hscope : scope.Drawn request context l.allLoopNames) :
    ((name, level), scope.standing l.allLoopNames) ∈ l.allStandings request context := by
  refine List.pair_mem_product.mpr ⟨mem_standpoints hdefinition, ?_⟩
  have hchoices : scope.standing l.allLoopNames ⊆ none :: (request.pool context).map some := by
    intro x hx
    obtain ⟨name, -, rfl⟩ := List.mem_map.mp hx
    rcases h : scope.bound.lookup name with _ | value
    · exact List.mem_cons_self
    · exact List.mem_cons_of_mem _ (List.mem_map_of_mem (hscope.bound _ (Scope.mem_bound_of_lookup h)).2)
  have hmem := mem_choices hchoices
  rwa [Scope.standing, List.length_map] at hmem

end

end ThemedPages
